import KeystoneCrypto.Envelope.Tamper
import KeystoneCrypto.Keystore.Wiping

/-!
# Wrong passwords

A wrong password yields another key, under which the ciphertext of a keystore does not open, and
the wrapper of the cipher reports that with `KeystoreDecryptionError`
(`Sealing.LocksOut.run_unpack_of_ne`). But `unlock` builds the password wrapper first, and does not
look at the password before. An empty string is refused by `SecretBytes` with `ValueError`, and a
string with a surrogate raises `UnicodeEncodeError` when it is encoded. So the strings reported as
wrong passwords are those that can be wrapped (`wrongPassword_iff`).

That another password yields another key, and that another key opens nothing, cannot hold of all
passwords at once, of which there are more than keys. `Sealing.Locks` asks it for one sealing and
all passwords, `Sealing.LocksOut` for one sealing and the passwords that are tried. Results about
runs go by the second, which is what can be expected of a run that actually happens.
-/

namespace KeystoneCrypto

/-! ### Another key -/

/-- The ranges of Argon2id do not depend on the password. -/
theorem argon2Call_supported_congr {password : SecretBytes} {params : Argon2Params} {salt : Bytes}
    (h : (argon2Call password params salt).Supported) (password' : SecretBytes) :
    (argon2Call password' params salt).Supported where
  __ := h

/-- A ciphertext that the cipher does not open under a 32-byte key is reported. -/
theorem decrypt_of_refused {P : Primitives} {key : SecretBytes} {nonce ciphertext aad : Bytes}
    (hnonce : nonce.length = 12) (hkey : key.buf.length = 32)
    (h : ∀ plaintext, P.aesGcmDecrypt key.buf nonce ciphertext aad ≠ .ok plaintext) :
    ∃ e, decrypt P key nonce ciphertext aad = .error e ∧ e.type = .keystoreDecryptionError := by
  unfold decrypt nonceLen
  rw [raiseIf_neg (not_not.mpr hnonce), asKey_of_length hkey, Effect.ok_bind, Effect.ok_bind]
  cases hdecrypt : P.aesGcmDecrypt key.buf nonce ciphertext aad with
  | ok plaintext => exact absurd hdecrypt (h plaintext)
  | error text => exact ⟨_, rfl, rfl⟩

namespace Envelope

section Locks

variable {P : Primitives} {seed password : SecretBytes} {params : Argon2Params}
  {hasPassphrase : Bool} {ts : ℤ}

/-- As far as passwords go, the primitives are ideal for this sealing: another password does not
yield its key, and no other key opens its ciphertext. -/
structure Sealing.Locks (s : Sealing P seed password params hasPassphrase ts) : Prop where
  password_eq : ∀ password',
    P.hashSecretRaw (argon2Call password' params s.salt) = .ok s.key.buf → password' = password
  key_eq : ∀ key plaintext,
    P.aesGcmDecrypt key s.nonce s.ciphertext [1, 1] = .ok plaintext → key = s.key.buf

/-- They are so as far as certain passwords go. -/
structure Sealing.LocksOut (s : Sealing P seed password params hasPassphrase ts)
    (tried : SecretBytes → Prop) : Prop where
  password_eq : ∀ password', tried password' →
    P.hashSecretRaw (argon2Call password' params s.salt) = .ok s.key.buf → password' = password
  key_eq : ∀ password' key plaintext, tried password' →
    P.hashSecretRaw (argon2Call password' params s.salt) = .ok key →
    P.aesGcmDecrypt key s.nonce s.ciphertext [1, 1] = .ok plaintext → key = s.key.buf

variable {s : Sealing P seed password params hasPassphrase ts} {tried : SecretBytes → Prop}

theorem Sealing.Locks.locksOut (hs : s.Locks) : s.LocksOut tried where
  password_eq password' _ := hs.password_eq password'
  key_eq _ key plaintext _ _ := hs.key_eq key plaintext

/-- Another password does not yield a key that opens the ciphertext. -/
theorem Sealing.LocksOut.refused (hs : s.LocksOut tried) {q key : SecretBytes} (htried : tried q)
    (hq : q ≠ password) (hkey : derivedKey P (argon2Call q params s.salt) = .ok key)
    (data : Bytes) : P.aesGcmDecrypt key.buf s.nonce s.ciphertext [1, 1] ≠ .ok data := by
  intro hdec
  have hraw := derivedKey_eq_ok_iff.mp hkey
  -- if it did, the key would be the one of the sealing, and `q` its password
  refine hq (hs.password_eq q htried ?_)
  rw [← hs.key_eq q key.buf data htried hraw hdec]
  exact hraw

/-- **A wrong password** is reported after the Argon2id call. -/
theorem Sealing.LocksOut.run_unpack_of_ne (hs : s.LocksOut tried) (hP : P.RefusesUnsupported)
    (h16 : params.saltLen = 16) {password' : SecretBytes} (htried : tried password')
    (hne : password' ≠ password) (w : World) :
    ∃ e w', (unpack P s.blob password').run w = .error e w' ∧
      e.type = .keystoreDecryptionError := by
  have hcall : headerCall s.blob password' = argon2Call password' params s.salt := by
    unfold headerCall
    rw [s.header_blob h16]
  -- what Argon2id supports for the right password it supports for this one
  obtain ⟨key, hkey⟩ := exists_derivedKey (P := P) (argon2Call_supported_congr
    (hP _ _ (derivedKey_eq_ok_iff.mp s.derived)) password')
  have hraw := derivedKey_eq_ok_iff.mp hkey
  have hlen : key.buf.length = 32 := by
    have hlen := P.hashSecretRaw_length _ _ hraw
    simp only [argon2Call, s.hashLen_eq] at hlen
    exact_mod_cast hlen
  -- the key has the length the cipher wants, so the refusal is an authentication failure
  obtain ⟨e, he, htype⟩ : ∃ e, decrypt P key s.nonce s.ciphertext [1, 1] = .error e ∧ _ :=
    decrypt_of_refused s.nonce_length hlen (hs.refused htried hne hkey)
  have hopen : openHeader P ⟨1, 1, params, s.salt, s.nonce, s.ciphertext⟩ key = .error e := by
    unfold openHeader
    rw [aad_toNat, Effect.ok_bind, he]
    rfl
  refine ⟨e, w.recordKdf (headerCall s.blob password'), ?_, htype⟩
  rw [run_unpack (s.readable h16), hcall, hkey, s.header_blob h16, Effect.ok_bind, hopen]

end Locks

end Envelope

/-! ### What unlocking reports -/

section Unlock

variable {P : Primitives} {ctx : KeystoreContext} {q : PyStr}

/-- An empty password is refused by the constructor of the wrapper. -/
theorem run_unlock_nil (w : World) : (ctx.unlock P []).run w
    = .error ⟨.valueError, [.lit "SecretBytes cannot be empty"]⟩ w := rfl

/-- A surrogate is refused by the encoding. -/
theorem run_unlock_of_surrogate {c : CodePoint} (hc : c ∈ q) (h : c.isSurrogate = true)
    (w : World) : (ctx.unlock P q).run w
      = .error ⟨.unicodeEncodeError, [.foreign "surrogates not allowed"]⟩ w := by
  have hencode : q.encodeUtf8
      = .error ⟨.unicodeEncodeError, [.foreign "surrogates not allowed"]⟩ := by
    unfold PyStr.encodeUtf8
    rw [raiseIf_pos (List.any_eq_true.mpr ⟨c, hc, h⟩)]
    rfl
  unfold KeystoreContext.unlock
  rw [hencode]
  rfl

/-- Every other string can be wrapped. -/
theorem exists_encodes_iff :
    (∃ pw, Encodes q pw) ↔ q ≠ [] ∧ ∀ c ∈ q, c.isSurrogate = false := by
  refine ⟨?_, fun ⟨hne, hq⟩ => exists_encodes hne (PyStr.encodeUtf8_eq_ok_iff.mpr ⟨hq, rfl⟩)⟩
  rintro ⟨pw, hpw⟩
  exact ⟨hpw.ne_nil, (PyStr.encodeUtf8_eq_ok_iff.mp hpw).1⟩

/-- Different passwords have different wrappers. -/
theorem Encodes.inj {password : PyStr} {pw : SecretBytes} (h : Encodes password pw)
    (h' : Encodes q pw) : q = password :=
  PyStr.encodeUtf8_inj h' h

theorem run_unlock_of_unpack_error {pw : SecretBytes} (hpw : Encodes q pw) {w w' : World}
    {e : PyExc} (h : (Envelope.unpack P ctx.blob pw).run (w.wrap pw) = .error e w') :
    (ctx.unlock P q).run w = .error e w' := by
  rw [ctx.unlock_eq, withPassword_of_encodes hpw]
  exact run_wrapped_of_error ((run_unpackWrapped w pw).trans h)

end Unlock

/-- **Wrong passwords.** Take a keystore that was created with 16 bytes of salt, and primitives that
are ideal for its sealing. Another string is reported with `KeystoreDecryptionError` exactly if it
is not empty and has no surrogate. -/
theorem wrongPassword_iff {P : Primitives} {m : Mnemonic} {password : PyStr}
    {params : Argon2Params} {hasPassphrase : Bool} {w w' : World} {ks : Keystore}
    {pw e : SecretBytes} (hP : P.RefusesUnsupported) (h16 : params.saltLen = 16)
    (hpw : Encodes password pw) (he : m.entropy = .ok e)
    (hcreate : (Keystore.create P m password params hasPassphrase).run w = .ok ks w')
    (hlocks : ∀ s : Envelope.Sealing P e pw params hasPassphrase w.clock.head,
      s.blob = ks.blob → s.Locks) {q : PyStr} (hq : q ≠ password) :
    (∀ w₁, ∃ e w₂, (KeystoreContext.unlock P ⟨ks.blob⟩ q).run w₁ = .error e w₂ ∧
      e.type = .keystoreDecryptionError) ↔ q ≠ [] ∧ ∀ c ∈ q, c.isSurrogate = false := by
  obtain ⟨-, pw', e', hpw', he', s, -, -, rfl⟩ := Keystore.sealing_of_run_create hcreate
  obtain rfl := hpw.unique hpw'
  obtain rfl : e = e' := Except.ok.inj (he.symm.trans he')
  -- what cannot be wrapped raises before the blob is looked at, in any world
  refine ⟨fun h => ⟨?_, fun c hc => ?_⟩, fun h w₁ => ?_⟩
  · rintro rfl
    obtain ⟨e₁, w₂, hrun, htype⟩ := h w
    cases (run_unlock_nil w).symm.trans hrun
    cases htype
  · refine Bool.eq_false_iff.mpr fun hsurrogate => ?_
    obtain ⟨e₁, w₂, hrun, htype⟩ := h w
    cases (run_unlock_of_surrogate hc hsurrogate w).symm.trans hrun
    cases htype
  · obtain ⟨pw₁, hpw₁⟩ := exists_encodes_iff.mpr h
    have hne : pw₁ ≠ pw := by
      rintro rfl
      exact hq (hpw.inj hpw₁)
    have hs : s.LocksOut fun _ => True := (hlocks s rfl).locksOut
    obtain ⟨e₁, w₂, hrun, htype⟩ := hs.run_unpack_of_ne hP h16 trivial hne (w₁.wrap pw₁)
    exact ⟨e₁, w₂, run_unlock_of_unpack_error hpw₁ hrun, htype⟩

/-! ### A keystore whose password is locked -/

/-- The Argon2id call of a keystore with the password `pw` on a machine whose random bytes are
zeros. -/
def zeroCall : Argon2Call := argon2Call pwWrapper interactiveProfile (List.replicate 16 0)

namespace Primitives

/-- A key of its own for this call. -/
def lockedKey (c : Argon2Call) : Except String Bytes :=
  if c = zeroCall then .ok (List.replicate 32 1) else rangedKey c

theorem length_lockedKey (c : Argon2Call) (raw : Bytes) (h : lockedKey c = .ok raw) :
    (raw.length : ℤ) = c.hashLen := by
  unfold lockedKey at h
  split at h
  · next hc =>
    rw [hc, ← Except.ok.inj h]
    rfl
  · exact length_rangedKey c raw h

theorem exists_lockedKey (c : Argon2Call) (h : c.Supported) : ∃ raw, lockedKey c = .ok raw := by
  unfold lockedKey
  split
  · exact ⟨_, rfl⟩
  · exact exists_rangedKey c h

/-- `toy` with a key of its own for `zeroCall`, and a cipher that opens under this key only. -/
def locked : Primitives :=
  { toy with
    hashSecretRaw := lockedKey
    hashSecretRaw_length := length_lockedKey
    hashSecretRaw_supported := exists_lockedKey
    aesGcmDecrypt := fun key nonce ciphertext aad =>
      if key = List.replicate 32 1 then toy.aesGcmDecrypt key nonce ciphertext aad
      else .error "InvalidTag" }

theorem locked_refusesUnsupported : locked.RefusesUnsupported := by
  intro c raw h
  change lockedKey c = .ok raw at h
  unfold lockedKey at h
  split at h
  · next hc =>
    rw [hc]
    decide
  · exact (rangedKey_eq_ok_iff.mp h).1

/-- No other call yields this key. -/
theorem eq_zeroCall {c : Argon2Call} (h : lockedKey c = .ok (List.replicate 32 1)) :
    c = zeroCall := by
  unfold lockedKey at h
  split at h
  · next hc => exact hc
  · -- the other keys are zeros
    have hz := (rangedKey_eq_ok_iff.mp h).2
    have hmem : (1 : UInt8) ∈ List.replicate c.hashLen.toNat 0 := hz ▸ List.mem_cons_self
    exact absurd (List.eq_of_mem_replicate hmem) (by decide)

end Primitives

/-- With sixteen zeros of salt the key is the one of `zeroCall`. -/
theorem key_of_salt {e : SecretBytes} {ts : ℤ}
    (s : Envelope.Sealing Primitives.locked e pwWrapper interactiveProfile false ts)
    (hsalt : s.salt = List.replicate 16 0) : s.key.buf = List.replicate 32 1 := by
  have hraw := derivedKey_eq_ok_iff.mp s.derived
  rw [hsalt] at hraw
  exact (Except.ok.inj hraw).symm

/-- Every sealing with this call is locked. -/
theorem locks_of_salt {e : SecretBytes} {ts : ℤ}
    (s : Envelope.Sealing Primitives.locked e pwWrapper interactiveProfile false ts)
    (hsalt : s.salt = List.replicate 16 0) : s.Locks := by
  have hkey := key_of_salt s hsalt
  refine ⟨fun password' h => ?_, fun key plaintext h => ?_⟩
  · rw [hkey, hsalt] at h
    exact SecretBytes.ext (congrArg Argon2Call.secret (Primitives.eq_zeroCall h))
  · rw [hkey]
    -- under another key this cipher opens nothing
    by_contra hne
    change (if key = _ then _ else _) = _ at h
    rw [if_neg hne] at h
    cases h

/-- The keystore of the sixteen zero bytes, created on a machine whose random bytes are zeros. -/
theorem exists_create_locked : ∃ ks w', (Keystore.create Primitives.locked ⟨zeroPhrase⟩
      (PyStr.ofString "pw") interactiveProfile false).run zeroWorld = .ok ks w' ∧
    ∀ s : Envelope.Sealing Primitives.locked ⟨List.replicate 16 0, by decide⟩ pwWrapper
      interactiveProfile false zeroWorld.clock.head, s.blob = ks.blob → s.Locks := by
  have hsalt : zeroWorld.random.take interactiveProfile.saltLen.toNat = List.replicate 16 0 := rfl
  obtain ⟨s, hs, hn⟩ : ∃ s : Envelope.Sealing Primitives.locked ⟨List.replicate 16 0, by decide⟩
      pwWrapper interactiveProfile false zeroWorld.clock.head,
      s.salt = zeroWorld.random.take interactiveProfile.saltLen.toNat ∧
      s.nonce = (zeroWorld.random.drop interactiveProfile.saltLen.toNat).take 12 :=
    Envelope.exists_sealing Primitives.locked profiles_public.1 rfl _ _ _ (by decide) (by decide)
      (by decide) rfl rfl
  refine ⟨_, _, Keystore.run_create (by decide) encodes_pw zeroPhrase_entropy s hs hn, ?_⟩
  intro s' hblob
  rw [Envelope.Sealing.eq_of_blob_eq rfl hblob]
  exact locks_of_salt s (hs.trans hsalt)

theorem wrongPassword_iff_no : ∃ ks w',
    (Keystore.create Primitives.locked ⟨zeroPhrase⟩ (PyStr.ofString "pw") interactiveProfile
      false).run zeroWorld = .ok ks w' ∧
    ((∀ w₁, ∃ e w₂, (KeystoreContext.unlock Primitives.locked ⟨ks.blob⟩
        (PyStr.ofString "no")).run w₁ = .error e w₂ ∧ e.type = .keystoreDecryptionError) ↔
      PyStr.ofString "no" ≠ [] ∧ ∀ c ∈ PyStr.ofString "no", c.isSurrogate = false) := by
  obtain ⟨ks, w', hcreate, hlocks⟩ := exists_create_locked
  exact ⟨ks, w', hcreate, wrongPassword_iff Primitives.locked_refusesUnsupported rfl encodes_pw
    zeroPhrase_entropy hcreate hlocks (by decide)⟩

/-- **Wrong passwords that are not reported as such**: the empty string and a lone surrogate. -/
theorem wrongPassword_errors : ∃ ks w',
    (Keystore.create Primitives.locked ⟨zeroPhrase⟩ (PyStr.ofString "pw") interactiveProfile
      false).run zeroWorld = .ok ks w' ∧
    (∀ s : Envelope.Sealing Primitives.locked ⟨List.replicate 16 0, by decide⟩ pwWrapper
      interactiveProfile false zeroWorld.clock.head, s.blob = ks.blob → s.Locks) ∧
    (∃ e, (KeystoreContext.unlock Primitives.locked ⟨ks.blob⟩ []).run w' = .error e w' ∧
      e.type = .valueError) ∧
    (∃ e, (KeystoreContext.unlock Primitives.locked ⟨ks.blob⟩ [0xD800]).run w' = .error e w' ∧
      e.type = .unicodeEncodeError) ∧
    ¬ ∀ q ≠ PyStr.ofString "pw", ∃ e w₂,
      (KeystoreContext.unlock Primitives.locked ⟨ks.blob⟩ q).run w' = .error e w₂ ∧
        e.type = .keystoreDecryptionError := by
  obtain ⟨ks, w', hcreate, hlocks⟩ := exists_create_locked
  refine ⟨ks, w', hcreate, hlocks, ⟨_, run_unlock_nil w', rfl⟩,
    ⟨_, run_unlock_of_surrogate List.mem_cons_self (by decide) w', rfl⟩, fun h => ?_⟩
  obtain ⟨e, w₂, hrun, htype⟩ := h [] (by decide)
  cases (run_unlock_nil w').symm.trans hrun
  cases htype

end KeystoneCrypto
