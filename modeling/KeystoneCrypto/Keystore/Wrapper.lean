import KeystoneCrypto.Keystore.Rules

/-!
# The password wrapper

`create` and `unlock` do the same around the envelope: the password is encoded into a fresh buffer,
the envelope does its work, the buffer is overwritten, and what is left to do follows
(`withPassword`). The envelope touches no buffer. So a call returns exactly if the password can be
wrapped and the work and what follows return (`run_withPassword_eq_ok_iff`), and a call whose work
raises ends right there (`run_wrapped_of_error`).

With `create` and `unlock` in this form, what holds of their statements holds of them; `CallRules`
are the rules for all methods.
-/

namespace KeystoneCrypto

/-! ### Passwords -/

/-- The wrapper `SecretBytes(password.encode("utf-8"))` can be built, and holds these bytes. -/
def Encodes (password : PyStr) (pw : SecretBytes) : Prop := password.encodeUtf8 = .ok pw.buf

theorem Encodes.unique {password : PyStr} {pw pw' : SecretBytes} (h : Encodes password pw)
    (h' : Encodes password pw') : pw = pw' :=
  SecretBytes.ext (Except.ok.inj (h.symm.trans h'))

/-- A nonempty string without surrogates can be wrapped. -/
theorem exists_encodes {password : PyStr} (hne : password ≠ []) {b : Bytes}
    (h : password.encodeUtf8 = .ok b) : ∃ pw, Encodes password pw :=
  ⟨⟨b, PyStr.encodeUtf8_ne_nil hne h⟩, h⟩

/-- An empty one cannot. -/
theorem Encodes.ne_nil {password : PyStr} {pw : SecretBytes} (h : Encodes password pw) :
    password ≠ [] := by
  rintro rfl
  exact pw.nonempty (Except.ok.inj h).symm

/-- The world in which a fresh buffer holds the password. -/
def World.wrap (w : World) (pw : SecretBytes) : World := { w with secrets := w.secrets.alloc pw }

/-- As long as nobody writes to it, a fresh wrapper holds the password. -/
theorem World.read_wrapper (w : World) (pw : SecretBytes) (w' : World)
    (h : w'.secrets = w.secrets.alloc pw) : w'.secrets.read w.secrets.next = pw := by
  rw [h, Store.read_alloc_self]

theorem run_readSecret_wrap (w : World) (pw : SecretBytes) :
    (readSecret w.secrets.next).run (w.wrap pw) = .ok pw (w.wrap pw) := by
  rw [run_readSecret, World.read_wrapper w pw _ rfl]

/-! ### Calls with a wrapper -/

section Wrapped

variable {α β : Type}

/-- The password is put into a buffer, something is done with it, the buffer is overwritten. -/
def wrapped (pw : SecretBytes) (body : ℕ → Py α) (rest : α → Py β) : Py β := do
  let pwSecret ← newSecret pw
  let a ← body pwSecret
  zeroizeSecret pwSecret
  rest a

/-- The wrapper is built from the password, if that is possible. -/
def withPassword (password : PyStr) (body : ℕ → Py α) (rest : α → Py β) : Py β := do
  let pwBytes ← password.encodeUtf8
  let pw ← SecretBytes.new pwBytes
  wrapped pw body rest

variable {password : PyStr} {pw : SecretBytes} {body : ℕ → Py α} {rest : α → Py β} {w w' : World}

/-- If the work returns, the buffer is overwritten before the rest runs. -/
theorem run_wrapped_of_ok (hbody : ∀ r, Effect.Keeps World.secrets (body r)) {a : α}
    (h : (body w.secrets.next).run (w.wrap pw) = .ok a w') :
    (wrapped pw body rest).run w = (rest a).run
      { w' with secrets := (w.secrets.alloc pw).write pw.zeroize w.secrets.next } := by
  have hstart : (newSecret pw).run w = .ok w.secrets.next (w.wrap pw) := rfl
  -- the work has written to no buffer, so the wrapper still holds the password
  have hkeeps : w'.secrets = w.secrets.alloc pw := by
    rw [← Effect.after_of_ok h]
    exact hbody w.secrets.next (w.wrap pw)
  unfold wrapped
  rw [Effect.run_bind_of_ok hstart, Effect.run_bind_of_ok h,
    Effect.run_bind_of_ok (run_zeroizeSecret w' _), World.read_wrapper w pw w' hkeeps, hkeeps]

/-- If the work raises, the call ends there. -/
theorem run_wrapped_of_error {e : PyExc}
    (h : (body w.secrets.next).run (w.wrap pw) = .error e w') :
    (wrapped pw body rest).run w = .error e w' := by
  have hstart : (newSecret pw).run w = .ok w.secrets.next (w.wrap pw) := rfl
  unfold wrapped
  rw [Effect.run_bind_of_ok hstart]
  exact Effect.run_bind_of_error h

theorem withPassword_of_encodes (h : Encodes password pw) :
    withPassword password body rest = wrapped pw body rest := by
  unfold withPassword
  rw [show password.encodeUtf8 = .ok pw.buf from h]
  change ((liftM (SecretBytes.new pw.buf) : Py SecretBytes) >>= _) = _
  rw [SecretBytes.new_buf]
  rfl

/-- A password that cannot be wrapped is refused before anything is done. -/
theorem run_withPassword_of_not_encodes (h : ¬ ∃ pw, Encodes password pw) (w : World) :
    ∃ e, (withPassword password body rest).run w = .error e w := by
  unfold withPassword
  cases hb : password.encodeUtf8 with
  | error e => exact ⟨e, rfl⟩
  | ok b =>
    cases hpw : SecretBytes.new b with
    | error e =>
      refine ⟨e, (Effect.run_bind_of_ok (Effect.run_liftM_eq_ok_iff.mpr ⟨rfl, rfl⟩)).trans ?_⟩
      rw [hpw]
      rfl
    | ok pw =>
      -- with both steps done the password would have been wrapped
      refine absurd ⟨pw, ?_⟩ h
      rw [Encodes, hb, SecretBytes.new_eq_ok_iff.mp hpw]

/-- **A call with a wrapper** returns what the rest returns after the work. -/
theorem run_withPassword_eq_ok_iff (hbody : ∀ r, Effect.Keeps World.secrets (body r)) {b : β} :
    (withPassword password body rest).run w = .ok b w' ↔ ∃ pw, Encodes password pw ∧
      ∃ a w₁, (body w.secrets.next).run (w.wrap pw) = .ok a w₁ ∧ (rest a).run
        { w₁ with secrets := (w.secrets.alloc pw).write pw.zeroize w.secrets.next }
          = .ok b w' := by
  refine ⟨fun h => ?_, ?_⟩
  -- the call has returned, so neither the wrapping nor the work can have raised
  · by_cases hpw : ∃ pw, Encodes password pw
    swap
    · obtain ⟨e, he⟩ := run_withPassword_of_not_encodes hpw w
      cases he.symm.trans h
    obtain ⟨pw, hpw⟩ := hpw
    rw [withPassword_of_encodes hpw] at h
    cases hrun : (body w.secrets.next).run (w.wrap pw) with
    | ok a w₁ => exact ⟨pw, hpw, a, w₁, hrun, (run_wrapped_of_ok hbody hrun).symm.trans h⟩
    | error e w₁ => cases (run_wrapped_of_error hrun).symm.trans h
  · rintro ⟨pw, hpw, a, w₁, hrun, h⟩
    rw [withPassword_of_encodes hpw, run_wrapped_of_ok hbody hrun]
    exact h

end Wrapped

/-! ### The calls of the library -/

section Calls

variable (P : Primitives)

/-- The statements of `unlock` behind the overwriting. -/
def newWallet (u : UnpackedKeystore) : Py Wallet := do
  let m := KeystoreContext.reconstruct P u.seed [128, 160, 192, 224, 256]
  let seed ← newSecret u.seed
  let closed ← newFlag false
  return ⟨m, seed, closed⟩

/-- What `unlock` does with the wrapper. -/
def unpackWrapped (blob : Bytes) (r : ℕ) : Py UnpackedKeystore := do
  let pw ← readSecret r
  Envelope.unpack P blob pw

/-- What `create` does with the wrapper. -/
def packWrapped (m : Mnemonic) (params : Argon2Params) (hasPassphrase : Bool) (r : ℕ) :
    Py Bytes := do
  let seed ← m.entropy
  let pw ← readSecret r
  Envelope.pack P seed pw params 1 hasPassphrase none

/-- Unlocking unpacks, and then allocates the cells of the wallet. -/
theorem KeystoreContext.unlock_eq (ctx : KeystoreContext) (password : PyStr) :
    ctx.unlock P password = withPassword password (unpackWrapped P ctx.blob) (newWallet P) := by
  unfold unlock withPassword wrapped unpackWrapped newWallet
  simp only [bind_assoc]

/-- Creating packs the entropy. -/
theorem Keystore.create_eq (m : Mnemonic) (password : PyStr) (params : Argon2Params)
    (hasPassphrase : Bool) :
    Keystore.create P m password params hasPassphrase = (do
      raiseIf (password = []) .valueError [.lit "password must be a non-empty string"]
      withPassword password (packWrapped P m params hasPassphrase)
        (fun blob => return ⟨blob, params, hasPassphrase, 0⟩)) := by
  unfold create withPassword wrapped packWrapped
  simp only [bind_assoc]

theorem keeps_unpackWrapped (blob : Bytes) (r : ℕ) :
    Effect.Keeps World.secrets (unpackWrapped P blob r) :=
  .bind (fun _ => rfl) fun pw => (inert_secrets.rules P).unpack blob pw

theorem keeps_packWrapped (m : Mnemonic) (params : Argon2Params) (hasPassphrase : Bool) (r : ℕ) :
    Effect.Keeps World.secrets (packWrapped P m params hasPassphrase r) :=
  .bind (.lift _) fun _ => .bind (fun _ => rfl) fun _ => (inert_secrets.rules P).pack _ _ _ _ _ _

variable {P}

/-- What is unpacked with is the password. -/
theorem run_unpackWrapped {blob : Bytes} (w : World) (pw : SecretBytes) :
    (unpackWrapped P blob w.secrets.next).run (w.wrap pw)
      = (Envelope.unpack P blob pw).run (w.wrap pw) :=
  Effect.run_bind_of_ok (run_readSecret_wrap w pw)

/-- And so is what is packed with. -/
theorem run_packWrapped_eq_ok_iff {m : Mnemonic} {params : Argon2Params} {hasPassphrase : Bool}
    {w w' : World} {pw : SecretBytes} {blob : Bytes} :
    (packWrapped P m params hasPassphrase w.secrets.next).run (w.wrap pw) = .ok blob w' ↔
      ∃ e, m.entropy = .ok e ∧ (Envelope.pack P e pw params 1 hasPassphrase none).run (w.wrap pw)
        = .ok blob w' := by
  unfold packWrapped
  refine ⟨?_, ?_⟩
  · intro h
    obtain ⟨e, w₁, hentropy, h⟩ := Effect.run_bind_eq_ok_iff.mp h
    -- the entropy is computed without touching the world
    obtain ⟨he, rfl⟩ := Effect.run_liftM_eq_ok_iff.mp hentropy
    rw [Effect.run_bind_of_ok (run_readSecret_wrap w pw)] at h
    exact ⟨e, he, h⟩
  · rintro ⟨e, he, h⟩
    refine Effect.run_bind_eq_ok_iff.mpr
      ⟨e, w.wrap pw, Effect.run_liftM_eq_ok_iff.mpr ⟨he, rfl⟩, ?_⟩
    rw [Effect.run_bind_of_ok (run_readSecret_wrap w pw)]
    exact h

end Calls

/-! ### What holds of the methods -/

section Rules

variable (P : Primitives) (p : ∀ {α : Type}, Py α → Prop)

/-- The rules of the envelope, and the effects on buffers and flags have the property, too. -/
structure CallRules : Prop extends EnvelopeRules P p where
  newSecret : ∀ s, p (newSecret s)
  readSecret : ∀ r, p (readSecret r)
  zeroizeSecret : ∀ r, p (zeroizeSecret r)
  newFlag : ∀ b, p (newFlag b)
  readFlag : ∀ r, p (readFlag r)
  writeFlag : ∀ r b, p (writeFlag r b)

end Rules

namespace CallRules

variable {P : Primitives} {p : ∀ {α : Type}, Py α → Prop} (h : CallRules P p)
include h

theorem withPassword {α β : Type} {body : ℕ → Py α} {rest : α → Py β} (password : PyStr)
    (hbody : ∀ r, p (body r)) (hrest : ∀ a, p (rest a)) : p (withPassword password body rest) :=
  h.bind (h.lift _) fun _ => h.bind (h.lift _) fun _ => h.bind (h.newSecret _) fun _ =>
    h.bind (hbody _) fun _ => h.bind (h.zeroizeSecret _) fun _ => hrest _

theorem create (m : Mnemonic) (password : PyStr) (params : Argon2Params) (hasPassphrase : Bool) :
    p (Keystore.create P m password params hasPassphrase) := by
  rw [Keystore.create_eq]
  exact h.bind (h.lift _) fun _ => h.withPassword password
    (fun _ => h.bind (h.lift _) fun _ => h.bind (h.readSecret _) fun _ => h.pack _ _ _ _ _ _)
    fun _ => h.pure _

theorem unlock (ctx : KeystoreContext) (password : PyStr) : p (ctx.unlock P password) := by
  rw [ctx.unlock_eq]
  exact h.withPassword password (fun _ => h.bind (h.readSecret _) fun _ => h.unpack _ _)
    fun _ => h.bind (h.newSecret _) fun _ => h.bind (h.newFlag _) fun _ => h.pure _

theorem checkOpen (wallet : Wallet) : p wallet.checkOpen :=
  h.bind (h.readFlag _) fun _ => h.lift _

theorem deriveAccount (wallet : Wallet) (path : DerivationPath) (scheme : PyStr) :
    p (wallet.deriveAccount P path scheme) :=
  h.bind (h.checkOpen _) fun _ => h.bind (h.readSecret _) fun _ => h.lift _

theorem signMessage (wallet : Wallet) (path : DerivationPath) (message : Bytes) (scheme : PyStr) :
    p (wallet.signMessage P path message scheme) :=
  h.bind (h.checkOpen _) fun _ => h.bind (h.deriveAccount _ _ _) fun _ => h.sign _ _

theorem close (wallet : Wallet) : p wallet.close :=
  h.bind (h.zeroizeSecret _) fun _ => h.writeFlag _ _

end CallRules

/-- Apart from `open` and `save`, no method uses the file system. -/
theorem diskRules (P : Primitives) :
    CallRules P fun {α} (x : Py α) => Effect.Keeps World.disk x where
  __ := inert_disk.rules P
  newSecret _ _ := rfl
  readSecret _ _ := rfl
  zeroizeSecret _ _ := rfl
  newFlag _ _ := rfl
  readFlag _ _ := rfl
  writeFlag _ _ _ := rfl

end KeystoneCrypto
