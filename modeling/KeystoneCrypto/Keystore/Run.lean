import KeystoneCrypto.Keystore.Wrapper
import KeystoneCrypto.Envelope.RoundTrip

/-!
# What creating and unlocking do to the world

`create` and `unlock` wrap the envelope: the password is encoded into a fresh buffer, the envelope
does its work, the buffer is overwritten. `run_create` and `run_unlock_eq_ok_iff` say in which
state such a call ends, cell by cell: the password wrapper holds zeros, and the wallet of an
unlocking refers to the two cells allocated last.
-/

namespace KeystoneCrypto

namespace Envelope

/-- The blob opens under a password: its header is readable, the call it asks for yields a key,
and what the key opens has the layout of a plaintext. -/
def Unpacks (P : Primitives) (blob : Bytes) (password : SecretBytes) (u : UnpackedKeystore) :
    Prop :=
  Readable blob ∧ ∃ key, derivedKey P (headerCall blob password) = .ok key ∧
    openHeader P (header blob) key = .ok u

theorem run_unpack_iff_unpacks {P : Primitives} {blob : Bytes} {password : SecretBytes}
    {w w' : World} {u : UnpackedKeystore} :
    (unpack P blob password).run w = .ok u w' ↔
      Unpacks P blob password u ∧ w' = w.recordKdf (headerCall blob password) := by
  rw [run_unpack_eq_ok_iff]
  unfold Unpacks
  refine ⟨?_, ?_⟩
  · rintro ⟨hread, key, hkey, hopen, hw⟩
    exact ⟨⟨hread, key, hkey, hopen⟩, hw⟩
  · rintro ⟨⟨hread, key, hkey, hopen⟩, hw⟩
    exact ⟨hread, key, hkey, hopen, hw⟩

/-- A sealing with sixteen bytes of salt opens under its own password. -/
theorem Sealing.unpacks {P : Primitives} {seed password : SecretBytes} {params : Argon2Params}
    {hasPassphrase : Bool} {ts : ℤ} (s : Sealing P seed password params hasPassphrase ts)
    (h : params.saltLen = 16) (hopens : s.Opens) :
    Unpacks P s.blob password ⟨seed, hasPassphrase, ts⟩ :=
  (run_unpack_iff_unpacks.mp
    -- whether a blob opens does not depend on the world, so any will do
    (s.run_unpack_blob h hopens (.fresh (Stream'.const 0) (Stream'.const 0)))).1

end Envelope

/-! ### Creating -/

/-- A world in which a password wrapper was allocated and overwritten. -/
def World.wipe (w : World) (pw : SecretBytes) : World :=
  { w with secrets := (w.secrets.alloc pw).write pw.zeroize w.secrets.next }

section Create

variable {P : Primitives} {m : Mnemonic} {password : PyStr} {params : Argon2Params}
  {hasPassphrase : Bool} {e pw : SecretBytes} {w : World}

/-- **Creating** packs the entropy of the mnemonic under the encoded password. -/
theorem Keystore.run_create (hne : password ≠ []) (hpw : Encodes password pw)
    (he : m.entropy = .ok e)
    (s : Envelope.Sealing P e pw params hasPassphrase w.clock.head)
    (hsalt : s.salt = w.random.take params.saltLen.toNat)
    (hnonce : s.nonce = (w.random.drop params.saltLen.toNat).take 12) :
    (Keystore.create P m password params hasPassphrase).run w
      = .ok ⟨s.blob, params, hasPassphrase, 0⟩
          ((Envelope.packedWorld w s.call params.saltLen none).wipe pw) := by
  -- packing starts with the wrapper allocated, and draws the same bytes as it would without
  have hpack : (Envelope.pack P e pw params 1 hasPassphrase none).run (w.wrap pw) = _ :=
    Envelope.run_pack s hsalt hnonce
  rw [Keystore.create_eq, raiseIf_neg hne]
  refine (run_withPassword_eq_ok_iff (keeps_packWrapped P m params hasPassphrase)).mpr
    ⟨pw, hpw, _, _, run_packWrapped_eq_ok_iff.mpr ⟨e, he, hpack⟩, rfl⟩

/-- **What a creation that returned went through.** The password was wrapped, and the entropy of the
mnemonic was sealed at the reading of the clock. -/
theorem Keystore.sealing_of_run_create {ks : Keystore} {w' : World}
    (h : (Keystore.create P m password params hasPassphrase).run w = .ok ks w') :
    password ≠ [] ∧ ∃ pw e, Encodes password pw ∧ m.entropy = .ok e ∧
      ∃ s : Envelope.Sealing P e pw params hasPassphrase w.clock.head,
        s.salt = w.random.take params.saltLen.toNat ∧
        s.nonce = (w.random.drop params.saltLen.toNat).take 12 ∧
        ks = ⟨s.blob, params, hasPassphrase, 0⟩ := by
  rw [Keystore.create_eq] at h
  -- guard, wrapper, packing and return, one after the other
  obtain ⟨_, _, hguard, h⟩ := Effect.run_bind_eq_ok_iff.mp h
  obtain ⟨hne, rfl⟩ := Effect.run_liftM_eq_ok_iff.mp hguard
  obtain ⟨pw, hpw, blob, w₁, hbody, hrest⟩ :=
    (run_withPassword_eq_ok_iff (keeps_packWrapped P m params hasPassphrase)).mp h
  obtain ⟨e, he, hpack⟩ := run_packWrapped_eq_ok_iff.mp hbody
  obtain ⟨s, rfl, hsalt, hnonce, -⟩ := Envelope.sealing_of_run_pack hpack
  cases hrest
  exact ⟨raiseIf_eq_ok_iff.mp hne, pw, e, hpw, he, s, hsalt, hnonce, rfl⟩

end Create

/-! ### Unlocking -/

/-- The state a successful unlocking ends in: the call of the header is on record, the password
wrapper is overwritten, and the wallet has its seed and its flag in fresh cells. -/
def unlockedWorld (w : World) (pw : SecretBytes) (call : Argon2Call) (seed : SecretBytes) :
    World :=
  { (w.recordKdf call).wipe pw with
    secrets := ((w.recordKdf call).wipe pw).secrets.alloc seed
    flags := w.flags.alloc false }

/-- The wallet an unlocking in `w` returns for a seed. -/
def unlockedWallet (P : Primitives) (w : World) (seed : SecretBytes) : Wallet :=
  ⟨KeystoreContext.reconstruct P seed [128, 160, 192, 224, 256], w.secrets.next + 1,
    w.flags.next⟩

/-- **Unlocking** succeeds exactly when the password can be encoded and opens the blob. -/
theorem KeystoreContext.run_unlock_eq_ok_iff {P : Primitives} {ctx : KeystoreContext}
    {password : PyStr} {w w' : World} {wallet : Wallet} :
    (ctx.unlock P password).run w = .ok wallet w' ↔ ∃ pw u, Encodes password pw ∧
      Envelope.Unpacks P ctx.blob pw u ∧ wallet = unlockedWallet P w u.seed ∧
      w' = unlockedWorld w pw (Envelope.headerCall ctx.blob pw) u.seed := by
  rw [ctx.unlock_eq, run_withPassword_eq_ok_iff (keeps_unpackWrapped P ctx.blob)]
  simp only [run_unpackWrapped, Envelope.run_unpack_iff_unpacks]
  refine ⟨?_, ?_⟩
  · rintro ⟨pw, hpw, u, _, ⟨hu, rfl⟩, hrest⟩
    cases hrest
    exact ⟨pw, u, hpw, hu, rfl, rfl⟩
  · rintro ⟨pw, u, hpw, hu, rfl, rfl⟩
    exact ⟨pw, hpw, u, _, ⟨hu, rfl⟩, rfl⟩

@[simp] theorem read_unlockedWorld_seed (P : Primitives) (w : World) (pw : SecretBytes)
    (call : Argon2Call) (seed : SecretBytes) :
    (unlockedWorld w pw call seed).secrets.read (unlockedWallet P w seed).seed = seed :=
  Store.read_alloc_self _ _

@[simp] theorem read_unlockedWorld_closed (P : Primitives) (w : World) (pw : SecretBytes)
    (call : Argon2Call) (seed : SecretBytes) :
    (unlockedWorld w pw call seed).flags.read (unlockedWallet P w seed).closed = false :=
  Store.read_alloc_self _ _

/-! ### Using a wallet -/

section Random

variable {τ : Type} {part : World → τ}

/-- Signing draws random bytes at most. -/
theorem Signer.keeps_sign (P : Primitives) (h : RandomFree part) (signer : Signer)
    (message : Bytes) : Effect.Keeps part (signer.sign P message) := by
  refine .bind ?_ fun _ => .pure _
  cases signer with
  | secp256k sk => exact .bind (.lift _) fun _ => .pure _
  -- only this signer draws, its auxiliary bytes
  | secp256kSchnorr sk => exact .bind (keeps_tokenBytes h _) fun _ => .pure _
  | ed25519 sk => exact .pure _

end Random

namespace Wallet

variable {P : Primitives} {wallet : Wallet} {path : DerivationPath} {scheme : PyStr} {w : World}

theorem run_checkOpen (w : World) :
    wallet.checkOpen.run w = if w.flags.read wallet.closed = true
      then .error ⟨.runtimeError, [.lit "wallet is closed"]⟩ w else .ok () w := by
  unfold checkOpen
  rw [EStateM.run_bind, run_readFlag]
  cases w.flags.read wallet.closed <;> rfl

/-- **Deriving** reads the seed and the flag, and writes nothing. -/
theorem run_deriveAccount (w : World) :
    (wallet.deriveAccount P path scheme).run w
      = if w.flags.read wallet.closed = true
        then .error ⟨.runtimeError, [.lit "wallet is closed"]⟩ w
        else match accountOf P (w.secrets.read wallet.seed) path scheme with
          | .ok account => .ok account w
          | .error x => .error x w := by
  unfold deriveAccount
  rw [EStateM.run_bind, run_checkOpen]
  by_cases hclosed : w.flags.read wallet.closed = true
  · rw [if_pos hclosed, if_pos hclosed]
  · rw [if_neg hclosed, if_neg hclosed]
    simp only [EStateM.run_bind, run_readSecret, Effect.run_liftM]
    cases accountOf P (w.secrets.read wallet.seed) path scheme <;> rfl

/-- The state is not touched by looking at the flag, whatever the flag says. -/
@[simp] theorem after_checkOpen (w : World) : Effect.after wallet.checkOpen w = w := by
  by_cases h : w.flags.read wallet.closed = true
  · exact Effect.after_of_error ((run_checkOpen w).trans (if_pos h))
  · exact Effect.after_of_ok ((run_checkOpen w).trans (if_neg h))

/-- Nor by deriving, whether it returns or raises. -/
@[simp] theorem after_deriveAccount (w : World) :
    Effect.after (wallet.deriveAccount P path scheme) w = w := by
  by_cases h : w.flags.read wallet.closed = true
  · exact Effect.after_of_error ((run_deriveAccount w).trans (if_pos h))
  -- the result may be an error of the derivation; the world is the same
  · have hrun : (wallet.deriveAccount P path scheme).run w = _ :=
      (run_deriveAccount w).trans (if_neg h)
    cases hacc : accountOf P (w.secrets.read wallet.seed) path scheme with
    | ok account =>
      rw [hacc] at hrun
      exact Effect.after_of_ok hrun
    | error x =>
      rw [hacc] at hrun
      exact Effect.after_of_error hrun

theorem keeps_signMessage {τ : Type} {part : World → τ} (h : RandomFree part) (message : Bytes) :
    Effect.Keeps part (wallet.signMessage P path message scheme) := by
  refine .bind (fun w => ?_) fun _ => .bind (fun w => ?_) fun account =>
    account.signer.keeps_sign P h message
  · rw [after_checkOpen]
  · rw [after_deriveAccount]

theorem run_close (w : World) :
    wallet.close.run w = .ok ()
      { w with
        secrets := w.secrets.write (w.secrets.read wallet.seed).zeroize wallet.seed
        flags := w.flags.write true wallet.closed } := rfl

end Wallet

end KeystoneCrypto
