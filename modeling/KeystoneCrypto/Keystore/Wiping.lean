import KeystoneCrypto.Envelope.Layout
import KeystoneCrypto.Keystore.Sessions

/-!
# Wiping the password

`unlock` and `create` put the password into a buffer, hand it to the envelope and overwrite it when
the envelope returns. There is no `finally`: if the envelope raises, the buffer is left as it is. So
for both calls (`wrapped`) the buffer is zero at the end exactly if the envelope returned, or if the
password consists of zero bytes (`wipes_wrapped_iff`).

When the envelope returns can be said of the arguments: a blob has to be `Openable` under the
password, and an entropy has to be `Sealable` with the salt that is drawn.
-/

namespace KeystoneCrypto

/-! ### A call with a wrapper -/

/-- However the call ends, the first buffer it allocates holds zeros then. -/
def Wipes {α : Type} (x : Py α) (w : World) : Prop :=
  w.secrets.next < (Effect.after x w).secrets.next →
    ∀ b ∈ ((Effect.after x w).secrets.read w.secrets.next).buf, b = 0

section Wrapped

variable {α β : Type} {pw : SecretBytes} {body : ℕ → Py α} {rest : α → Py β} {w w' : World}

/-- If the body returns, the buffer is overwritten, and what follows writes to fresh cells only. -/
theorem read_wrapped_of_ok (hbody : ∀ r, Effect.Keeps World.secrets (body r))
    (hrest : ∀ a w, World.Extends w (Effect.after (rest a) w)) {a : α}
    (h : (body w.secrets.next).run (w.wrap pw) = .ok a w') :
    (Effect.after (wrapped pw body rest) w).secrets.read w.secrets.next = pw.zeroize := by
  -- the wrapper is one of the cells that the rest finds in use
  have hext := hrest a { w' with secrets := (w.secrets.alloc pw).write pw.zeroize w.secrets.next }
  unfold Effect.after at hext ⊢
  rw [run_wrapped_of_ok hbody h]
  exact (hext.secrets_read _ (Nat.lt_succ_self _)).trans (Store.read_write_self _ _ _)

/-- If it raises, the buffer is left as it was. -/
theorem secrets_wrapped_of_error (hbody : ∀ r, Effect.Keeps World.secrets (body r)) {e : PyExc}
    (h : (body w.secrets.next).run (w.wrap pw) = .error e w') :
    (Effect.after (wrapped pw body rest) w).secrets = w.secrets.alloc pw := by
  have hkeeps := hbody w.secrets.next (w.wrap pw)
  rw [Effect.after_of_error h] at hkeeps
  rw [Effect.after_of_error (run_wrapped_of_error h)]
  exact hkeeps

/-- **A wrapper is wiped** exactly if the body returns or there is nothing to wipe. -/
theorem wipes_wrapped_iff (hbody : ∀ r, Effect.Keeps World.secrets (body r))
    (hrest : ∀ a w, World.Extends w (Effect.after (rest a) w)) (w : World) :
    Wipes (wrapped pw body rest) w ↔
      (∃ a w', (body w.secrets.next).run (w.wrap pw) = .ok a w') ∨ ∀ b ∈ pw.buf, b = 0 := by
  unfold Wipes
  cases hrun : (body w.secrets.next).run (w.wrap pw) with
  | ok a w' =>
    -- both sides hold: the body has returned, and the buffer is overwritten
    refine iff_of_true (fun _ b hb => ?_) (.inl ⟨a, w', rfl⟩)
    rw [read_wrapped_of_ok hbody hrest hrun, SecretBytes.zeroize_buf] at hb
    exact List.eq_of_mem_replicate hb
  | error e w' =>
    rw [secrets_wrapped_of_error hbody hrun, Store.read_alloc_self, Store.next_alloc,
      -- a buffer was allocated, and it still holds the password
      imp_iff_right (Nat.lt_succ_self _)]
    refine ⟨.inr, ?_⟩
    rintro (⟨a, w', h⟩ | h)
    · cases h
    · exact h

theorem wipes_withPassword_iff (password : PyStr) (hbody : ∀ r, Effect.Keeps World.secrets (body r))
    (hrest : ∀ a w, World.Extends w (Effect.after (rest a) w)) (w : World) :
    Wipes (withPassword password body rest) w ↔ ∀ pw, Encodes password pw →
      (∀ b ∈ pw.buf, b = 0) ∨ ∃ a w', (body w.secrets.next).run (w.wrap pw) = .ok a w' := by
  by_cases h : ∃ pw, Encodes password pw
  · obtain ⟨pw, hpw⟩ := h
    rw [withPassword_of_encodes hpw, wipes_wrapped_iff hbody hrest, or_comm]
    refine ⟨fun hw pw' hpw' => ?_, fun hw => hw pw hpw⟩
    obtain rfl := hpw.unique hpw'
    exact hw
  · obtain ⟨e, he⟩ : ∃ e, (withPassword password body rest).run w = .error e w :=
      run_withPassword_of_not_encodes h w
    -- without a wrapper there is no buffer to speak of
    refine iff_of_true ?_ fun pw hpw => absurd ⟨pw, hpw⟩ h
    unfold Wipes
    rw [Effect.after_of_error he]
    exact fun hlt => absurd hlt (Nat.lt_irrefl _)

end Wrapped

/-! ### Which envelopes return -/

namespace Envelope

/-- The blob opens under the password: the header is readable and names Argon2id, the call it asks
for yields 32 bytes, and under these the ciphertext is that of a plaintext which is as long as its
first byte says and has a seed. -/
structure Openable (P : Primitives) (blob : Bytes) (password : SecretBytes) : Prop where
  readable : Readable blob
  kdfId_eq : (header blob).kdfId = 1
  opens : ∃ key plaintext, P.hashSecretRaw (headerCall blob password) = .ok key ∧
    key.length = 32 ∧
    P.aesGcmDecrypt key (header blob).nonce (header blob).ciphertext
      [(header blob).version, (header blob).kdfId] = .ok plaintext ∧
    ¬ Short plaintext ∧ plaintext.head? ≠ some 0

theorem openable_iff {P : Primitives} {blob : Bytes} {password : SecretBytes} :
    Openable P blob password ↔ ∃ u, Unpacks P blob password u := by
  refine ⟨?_, ?_⟩
  · rintro ⟨hread, hid, key, plaintext, hkey, hlen, hdecrypt, hplain⟩
    obtain ⟨u, hu⟩ := exists_unpackPlaintext_iff.mpr hplain
    have hne : key ≠ [] := List.ne_nil_of_length_pos (by omega)
    -- a readable blob is long enough for its nonce
    have hnonce : (header blob).nonce.length = 12 := by
      have hge := hread.length_ge
      unfold header
      rw [length_sliceFromTo]
      omega
    exact ⟨u, hread, ⟨key, hne⟩, derivedKey_eq_ok_iff.mpr hkey,
      openHeader_eq_ok_iff.mpr ⟨plaintext, hid, hnonce, hlen, hdecrypt, hu⟩⟩
  · rintro ⟨u, hread, key, hkey, hopen⟩
    obtain ⟨plaintext, hid, -, hlen, hdecrypt, hu⟩ := openHeader_eq_ok_iff.mp hopen
    exact ⟨hread, hid, key.buf, plaintext, derivedKey_eq_ok_iff.mp hkey, hlen, hdecrypt,
      exists_unpackPlaintext_iff.mp ⟨u, hu⟩⟩

/-- Packing returns exactly if there is a sealing over the bytes it draws. -/
theorem exists_run_pack_iff {P : Primitives} {seed password : SecretBytes} {params : Argon2Params}
    {hasPassphrase : Bool} {createdAt : Option ℤ} {w : World} :
    (∃ blob w', (pack P seed password params 1 hasPassphrase createdAt).run w = .ok blob w') ↔
      Sealable P seed password params (stamp createdAt w.clock)
        (w.random.take params.saltLen.toNat) := by
  refine ⟨?_, fun h => ?_⟩
  · rintro ⟨blob, w', hrun⟩
    obtain ⟨s, -, hsalt, hnonce, -⟩ := sealing_of_run_pack hrun
    exact (exists_sealing_iff.mp ⟨s, hsalt, hnonce⟩).1
  · obtain ⟨s, hsalt, hnonce⟩ :
        ∃ s : Sealing P seed password params hasPassphrase (stamp createdAt w.clock),
          s.salt = w.random.take params.saltLen.toNat ∧
          s.nonce = (w.random.drop params.saltLen.toNat).take 12 :=
      exists_sealing_iff.mpr ⟨h, Stream'.length_take _ _⟩
    exact ⟨_, _, run_pack s hsalt hnonce⟩

end Envelope

/-! ### Unlocking and creating -/

section Calls

variable (P : Primitives) (w : World)

theorem wipes_unlock_iff (ctx : KeystoreContext) (password : PyStr) :
    Wipes (ctx.unlock P password) w ↔ ∀ pw, Encodes password pw →
      (∀ b ∈ pw.buf, b = 0) ∨ Envelope.Openable P ctx.blob pw := by
  rw [ctx.unlock_eq, wipes_withPassword_iff password (keeps_unpackWrapped P ctx.blob)
    (extends_newWallet P)]
  refine forall₂_congr fun pw _ => or_congr_right ?_
  simp only [run_unpackWrapped, Envelope.run_unpack_iff_unpacks, exists_and_left, exists_eq,
    and_true]
  exact Envelope.openable_iff.symm

theorem wipes_create_iff (m : Mnemonic) (password : PyStr) (params : Argon2Params)
    (hasPassphrase : Bool) :
    Wipes (Keystore.create P m password params hasPassphrase) w ↔ ∀ pw, Encodes password pw →
      (∀ b ∈ pw.buf, b = 0) ∨ ∃ e, m.entropy = .ok e ∧ Envelope.Sealable P e pw params
        w.clock.head (w.random.take params.saltLen.toNat) := by
  rw [Keystore.create_eq]
  by_cases hne : password = []
  · -- an empty password is refused before there is a wrapper
    rw [raiseIf_pos hne]
    exact iff_of_true (fun hlt => absurd hlt (Nat.lt_irrefl _)) fun pw hpw => absurd hne hpw.ne_nil
  · rw [raiseIf_neg hne]
    refine (wipes_withPassword_iff password (keeps_packWrapped P m params hasPassphrase)
      (fun blob w => .of_eq rfl rfl) w).trans ?_
    refine forall₂_congr fun pw _ => or_congr_right ?_
    -- packing draws the same bytes as it would without the wrapper
    have hpack : ∀ e, (∃ blob w', (Envelope.pack P e pw params 1 hasPassphrase none).run (w.wrap pw)
        = .ok blob w') ↔ Envelope.Sealable P e pw params w.clock.head
          (w.random.take params.saltLen.toNat) := fun e => Envelope.exists_run_pack_iff
    simp only [← hpack, run_packWrapped_eq_ok_iff]
    refine ⟨?_, ?_⟩
    · rintro ⟨blob, w', e, he, hrun⟩
      exact ⟨e, he, blob, w', hrun⟩
    · rintro ⟨e, he, blob, w', hrun⟩
      exact ⟨blob, w', e, he, hrun⟩

end Calls

/-- **When the wrapper is wiped.** Unlocking leaves zeros behind exactly if there is no wrapper, its
bytes are zeros anyway, or the blob opens; creating exactly if in the last case the entropy can be
sealed with the salt that is drawn. -/
theorem passwordWiped_iff (P : Primitives) (w : World) :
    (∀ (ctx : KeystoreContext) password, Wipes (ctx.unlock P password) w ↔
      ∀ pw, Encodes password pw → (∀ b ∈ pw.buf, b = 0) ∨ Envelope.Openable P ctx.blob pw) ∧
    ∀ m password params hasPassphrase,
      Wipes (Keystore.create P m password params hasPassphrase) w ↔
        ∀ pw, Encodes password pw → (∀ b ∈ pw.buf, b = 0) ∨ ∃ e, m.entropy = .ok e ∧
          Envelope.Sealable P e pw params w.clock.head (w.random.take params.saltLen.toNat) :=
  ⟨wipes_unlock_iff P w, wipes_create_iff P w⟩

/-- **A password left behind.** Unlocking an empty blob raises, and the wrapper still holds the
password; so does creating with 16 bytes of key. -/
theorem passwordLeft :
    (∃ e w', (KeystoreContext.unlock Primitives.toy ⟨[]⟩ (PyStr.ofString "pw")).run zeroWorld
        = .error e w' ∧ w'.secrets.read zeroWorld.secrets.next = pwWrapper) ∧
    (∃ e w', (Keystore.create Primitives.toy ⟨zeroPhrase⟩ (PyStr.ofString "pw")
        { interactiveProfile with hashLen := 16 } false).run zeroWorld = .error e w' ∧
      w'.secrets.read zeroWorld.secrets.next = pwWrapper) ∧
    ¬ ((∀ (P : Primitives) w (ctx : KeystoreContext) password, Wipes (ctx.unlock P password) w) ∧
      ∀ (P : Primitives) w m password params hasPassphrase,
        Wipes (Keystore.create P m password params hasPassphrase) w) := by
  have hunlock : ∃ e w', (KeystoreContext.unlock Primitives.toy ⟨[]⟩ (PyStr.ofString "pw")).run
      zeroWorld = .error e w' ∧ w'.secrets.read zeroWorld.secrets.next = pwWrapper :=
    ⟨_, _, rfl, rfl⟩
  have hcreate : ∃ e w', (Keystore.create Primitives.toy ⟨zeroPhrase⟩ (PyStr.ofString "pw")
      { interactiveProfile with hashLen := 16 } false).run zeroWorld = .error e w' ∧
      w'.secrets.read zeroWorld.secrets.next = pwWrapper := by
    refine ⟨⟨.valueError, [.lit "envelope requires hash_len=32, got ", .int 16]⟩,
      zeroWorld.wrap pwWrapper, ?_, rfl⟩
    -- the length of the key is checked in `pack`, when the wrapper is already there
    unfold Keystore.create
    rw [raiseIf_neg (show PyStr.ofString "pw" ≠ [] by decide)]
    simp only [EStateM.run_bind, Effect.run_liftM,
      show (PyStr.ofString "pw").encodeUtf8 = .ok pwWrapper.buf from encodes_pw,
      SecretBytes.new_buf, run_newSecret, zeroPhrase_entropy, run_readSecret, Store.read_alloc_self]
    rfl
  refine ⟨hunlock, hcreate, fun h => ?_⟩
  rcases (wipes_unlock_iff _ _ _ _).mp (h.1 Primitives.toy zeroWorld ⟨[]⟩ (PyStr.ofString "pw"))
    pwWrapper encodes_pw with hzero | hopen
  · exact absurd (hzero 0x70 List.mem_cons_self) (by decide)
  · exact absurd hopen.readable.length_ge (by decide)

end KeystoneCrypto
