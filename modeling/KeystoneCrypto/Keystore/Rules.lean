import KeystoneCrypto.Envelope.Run
import KeystoneCrypto.Keystore

/-!
# Properties of all programs

The programs of the library are put together from a few effects: random bytes are drawn, the clock
is read, Argon2id is called, buffers and flags are allocated, read and written. A property that
passes from statements to programs (`Effect.Compositional`) holds of all of them once it holds of
these effects. `EnvelopeRules` collects what packing, unpacking, generating and signing need; the
rules for the methods, which use buffers and flags besides, are `CallRules`. Files are read and
written by `open` and `save` only.

Most of these properties are frames: some part of the world is left alone (`Effect.Keeps`). The
envelope writes to nothing but the random bytes, the clock and the record of Argon2id calls, so that
it keeps every part that does not depend on these (`Inert.rules`).
-/

namespace KeystoneCrypto

/-! ### What single effects leave alone -/

/-- A part of the world that does not depend on the random bytes still to come. -/
def RandomFree {τ : Type} (part : World → τ) : Prop :=
  ∀ w random, part { w with random } = part w

section Random

variable {τ : Type} {part : World → τ}

theorem keeps_tokenBytes (h : RandomFree part) (n : ℤ) : Effect.Keeps part (tokenBytes n) := by
  intro w
  by_cases hn : 0 ≤ n
  · rw [Effect.after_of_ok (run_tokenBytes w hn)]
    exact h w _
  -- a negative count raises before anything is drawn
  · unfold tokenBytes
    rw [raiseIf_pos (by omega)]
    rfl

theorem keeps_encrypt (P : Primitives) (h : RandomFree part) (key : SecretBytes)
    (plaintext aad : Bytes) : Effect.Keeps part (encrypt P key plaintext aad) :=
  .bind (keeps_tokenBytes h _) fun _ => .bind (.lift _) fun _ => .pure _

/-- Reading the clock is seen by what depends on the readings to come only. -/
theorem keeps_timestamp (h : ∀ w clock, part { w with clock } = part w) (createdAt : Option ℤ) :
    Effect.Keeps part (Envelope.timestamp createdAt) := by
  intro w
  rw [Effect.after_of_ok (Envelope.run_timestamp createdAt w)]
  exact h w _

end Random

/-- A part of the world that the file system does not belong to. -/
def DiskFree {τ : Type} (part : World → τ) : Prop := ∀ w disk, part { w with disk } = part w

section Disk

variable {τ : Type} {part : World → τ}

theorem keeps_save (h : DiskFree part) (ks : Keystore) (path : PyStr) :
    Effect.Keeps part (ks.save path) := by
  intro w
  rw [Keystore.save, after_writeBytes]
  exact h w _

theorem keeps_openFile (h : DiskFree part) (path : PyStr) :
    Effect.Keeps part (Keystore.openFile path) := by
  refine .bind (fun w => ?_) fun _ => .pure _
  rw [after_readBytes]
  exact h w _

end Disk

/-! ### What holds of the envelope -/

section Rules

variable (P : Primitives) (p : ∀ {α : Type}, Py α → Prop)

/-- The property passes to programs, and the effects of the envelope have it. -/
structure EnvelopeRules : Prop extends Effect.Compositional p where
  tokenBytes : ∀ n, p (tokenBytes n)
  time : p time
  hashSecretRaw : ∀ call, p (hashSecretRaw P call)

end Rules

variable {P : Primitives} {p : ∀ {α : Type}, Py α → Prop}

namespace EnvelopeRules

variable (h : EnvelopeRules P p)
include h

theorem deriveKey (password : SecretBytes) (params : Argon2Params) (salt : Option Bytes) :
    p (deriveKey P password params salt) := by
  -- with or without a given salt the call is followed by the same
  have hkey : ∀ salt, p (do
      let raw ← KeystoneCrypto.hashSecretRaw P (argon2Call password params salt)
      let key ← SecretBytes.new raw
      return (key, salt)) := fun _ =>
    h.bind (h.hashSecretRaw _) fun _ => h.bind (h.lift _) fun _ => h.pure _
  cases salt with
  | none => exact h.bind (h.tokenBytes _) hkey
  | some salt => exact h.bind (h.lift _) fun _ => hkey salt

theorem encrypt (key : SecretBytes) (plaintext aad : Bytes) : p (encrypt P key plaintext aad) :=
  h.bind (h.tokenBytes _) fun _ => h.bind (h.lift _) fun _ => h.pure _

theorem timestamp (createdAt : Option ℤ) : p (Envelope.timestamp createdAt) := by
  cases createdAt with
  | none => exact h.time
  | some t => exact h.pure t

theorem pack (seed password : SecretBytes) (params : Argon2Params) (kdfId : ℤ)
    (hasPassphrase : Bool) (createdAt : Option ℤ) :
    p (Envelope.pack P seed password params kdfId hasPassphrase createdAt) :=
  h.bind (h.lift _) fun _ => h.bind (h.lift _) fun _ => h.bind (h.lift _) fun _ =>
    h.bind (h.tokenBytes _) fun _ => h.bind (h.deriveKey _ _ _) fun _ =>
      h.bind (h.timestamp _) fun _ => h.bind (h.lift _) fun _ => h.bind (h.lift _) fun _ =>
        h.bind (h.encrypt _ _ _) fun _ => h.bind (h.lift _) fun _ => h.bind (h.lift _) fun _ =>
          h.pure _

theorem unpack (blob : Bytes) (password : SecretBytes) : p (Envelope.unpack P blob password) := by
  -- in this form reading the header is one pure step
  rw [Envelope.unpack_eq]
  exact h.bind (h.lift _) fun _ => h.bind (h.deriveKey _ _ _) fun _ => h.lift _

theorem generate (strength : ℤ) : p (Mnemonic.generate P strength) :=
  have hentropy : p (generateEntropy strength) :=
    h.bind (h.lift _) fun _ => h.bind (h.lift _) fun _ => h.bind (h.tokenBytes _) fun _ => h.lift _
  h.bind (h.lift _) fun _ => h.bind hentropy fun _ => h.lift _

/-- Signing draws random bytes at most. -/
theorem sign (signer : Signer) (message : Bytes) : p (signer.sign P message) := by
  refine h.bind ?_ fun _ => h.pure _
  cases signer with
  | secp256k sk => exact h.bind (h.lift _) fun _ => h.pure _
  | secp256kSchnorr sk => exact h.bind (h.tokenBytes _) fun _ => h.pure _
  | ed25519 sk => exact h.pure _

theorem accountSign (account : Account) (message : Bytes) : p (account.sign P message) :=
  h.bind (h.sign _ _) fun _ => h.pure _

end EnvelopeRules

/-! ### What is not written -/

/-- A part of the world without the random bytes, the clock and the Argon2id calls. -/
structure Inert {τ : Type} (part : World → τ) : Prop where
  random : RandomFree part
  clock : ∀ w clock, part { w with clock } = part w
  kdfCalls : ∀ w kdfCalls, part { w with kdfCalls } = part w

/-- The envelope leaves such a part alone. -/
theorem Inert.rules {τ : Type} {part : World → τ} (h : Inert part) (P : Primitives) :
    EnvelopeRules P fun {α} (x : Py α) => Effect.Keeps part x where
  __ := Effect.compositional_keeps part
  tokenBytes := keeps_tokenBytes h.random
  time w := h.clock w _
  hashSecretRaw call := by
    intro w
    unfold Effect.after
    rw [run_hashSecretRaw]
    -- refused or not, the call is recorded
    cases P.hashSecretRaw call <;> exact h.kdfCalls w _

theorem inert_secrets : Inert World.secrets := ⟨fun _ _ => rfl, fun _ _ => rfl, fun _ _ => rfl⟩

theorem inert_flags : Inert World.flags := ⟨fun _ _ => rfl, fun _ _ => rfl, fun _ _ => rfl⟩

theorem inert_disk : Inert World.disk := ⟨fun _ _ => rfl, fun _ _ => rfl, fun _ _ => rfl⟩

end KeystoneCrypto
