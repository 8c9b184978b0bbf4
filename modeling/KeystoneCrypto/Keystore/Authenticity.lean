import KeystoneCrypto.Keystore.Guarantees

/-!
# Whose keystores are unlocked

`KeystoreContext` takes any bytes, and whoever can write to a file decides what is opened. Still
nothing but the keystores of a run is unlocked in it: a wallet holds an entropy that was created
before, under the very password that unlocked it (`unlock_authentic`).

What is assumed is ideal ciphers and keys, for the run at hand (`Machine.Ideal`) and as far as
passwords are tried in it (`Machine.TriesOn`): a tuple of key, nonce and ciphertext that the cipher
opens is the tuple of a creation before, and the key of a creation comes from its own password only.
Nothing is assumed of the files that are there at first and of the contexts that are built from
other bytes.

No invariant is needed. The unlocking itself says that the cipher has opened something under the key
of the password; so it was sealed before, the password is the one it was sealed under, and since one
tuple opens to one plaintext, what is parsed is what was packed
(`Envelope.Sealing.AskedFor.eq_of_unpacks`).
-/

namespace KeystoneCrypto

open Trace

namespace Envelope

variable {P : Primitives} {e pw : SecretBytes} {params : Argon2Params} {flag : Bool} {ts : ℤ}
  {s : Sealing P e pw params flag ts}

/-- Tried on this blob with this key, the cipher is asked to open what was sealed. -/
structure Sealing.AskedFor (s : Sealing P e pw params flag ts) (blob : Bytes) (key : SecretBytes) :
    Prop where
  key_eq : key.buf = s.key.buf
  nonce_eq : (header blob).nonce = s.nonce
  ciphertext_eq : (header blob).ciphertext = s.ciphertext

/-- A blob that asks for the tuple of a sealing opens to what was sealed. -/
theorem Sealing.AskedFor.eq_of_unpacks {blob plaintext : Bytes} {key : SecretBytes}
    {u : UnpackedKeystore} (hask : s.AskedFor blob key) (hopens : s.Opens)
    (hdec : P.aesGcmDecrypt key.buf (header blob).nonce (header blob).ciphertext [1, 1]
      = .ok plaintext)
    (hu : unpackPlaintext plaintext = .ok u) : u = ⟨e, flag, ts⟩ := by
  rw [hask.key_eq, hask.nonce_eq, hask.ciphertext_eq] at hdec
  -- one tuple opens to one plaintext
  obtain rfl : s.plaintext = plaintext := Except.ok.inj (hopens.symm.trans hdec)
  have hsealed := unpackPlaintext_of_packPlaintext s.seed_le s.plaintext_eq
  exact Except.ok.inj (hu.symm.trans hsealed)

end Envelope

section Authenticity

variable {π : Type} [DecidableEq π] (P : Primitives) (S₀ : Machine π)

/-- In this run a keystore was created by this sealing. -/
def Machine.Sealed (calls : List (π × Client.Call)) (password : PyStr) {e pw : SecretBytes}
    {params : Argon2Params} {flag : Bool} {ts : ℤ} (s : Envelope.Sealing P e pw params flag ts) :
    Prop :=
  ∃ p m ks, ((p, .create m password params flag), .keystore (.ok ks))
      ∈ trace (Machine.exec P) S₀ calls ∧
    m.entropy = .ok e ∧ Encodes password pw ∧ ks.blob = s.blob

/-- After the calls `front` of this run the password is tried on a context with this blob. -/
def Machine.TriesOn (calls front : List (π × Client.Call)) (blob : Bytes) (q : SecretBytes) :
    Prop :=
  ∃ p i password back, calls = front ++ (p, .unlock i password) :: back ∧
    (final (Machine.exec P) S₀ front p).contexts[i]? = some ⟨blob⟩ ∧ Encodes password q

/-- Ciphers and keys are ideal for this run. -/
structure Machine.Ideal (calls : List (π × Client.Call)) : Prop where
  /-- What a creation has encrypted opens again. -/
  opens : ∀ password {e pw params flag ts} (s : Envelope.Sealing P e pw params flag ts),
    S₀.Sealed P calls password s → s.Opens
  /-- Where a password is tried and yields the key of a creation, it is the password of this
  creation. -/
  password_eq : ∀ password {e pw params flag ts} (s : Envelope.Sealing P e pw params flag ts),
    S₀.Sealed P calls password s → ∀ front blob q, S₀.TriesOn P calls front blob q →
      P.hashSecretRaw (Envelope.headerCall blob q) = .ok s.key.buf → q = pw
  /-- Where a password is tried and the cipher opens the ciphertext, a creation before has encrypted
  it. -/
  unforged : ∀ front blob q key plaintext, S₀.TriesOn P calls front blob q →
    derivedKey P (Envelope.headerCall blob q) = .ok key →
    P.aesGcmDecrypt key.buf (Envelope.header blob).nonce (Envelope.header blob).ciphertext [1, 1]
      = .ok plaintext →
    ∃ (created : PyStr) (e pw : SecretBytes) (params : Argon2Params) (flag : Bool) (ts : ℤ)
      (s : Envelope.Sealing P e pw params flag ts), S₀.Sealed P front created s ∧
      s.AskedFor blob key

variable {P S₀}

theorem Machine.Sealed.append {front : List (π × Client.Call)} {password : PyStr}
    {e pw : SecretBytes} {params : Argon2Params} {flag : Bool} {ts : ℤ}
    {s : Envelope.Sealing P e pw params flag ts} (h : S₀.Sealed P front password s)
    (back : List (π × Client.Call)) : S₀.Sealed P (front ++ back) password s := by
  obtain ⟨p, m, ks, hmem, hks⟩ := h
  refine ⟨p, m, ks, ?_, hks⟩
  rw [trace_append]
  exact List.mem_append_left _ hmem

end Authenticity

/-- **Authenticity.** Whatever bytes the files and contexts hold: a wallet that is unlocked in an
ideal run holds an entropy that was created earlier in this run, under the same password. -/
theorem unlock_authentic {P : Primitives} {π : Type} [DecidableEq π] {S₀ : Machine π}
    {calls : List (π × Client.Call)} (hideal : S₀.Ideal P calls) {front : List (π × Client.Call)}
    {p : π} {i : ℕ} {password : PyStr} {back : List (π × Client.Call)}
    (hcalls : calls = front ++ (p, .unlock i password) :: back) {s : Client}
    (hs : s = final (Machine.exec P) S₀ front p) {wallet : Wallet}
    (hunlock : (s.exec P (.unlock i password)).1 = .wallet (.ok wallet)) :
    ∃ q m params hasPassphrase ks e, m.entropy = .ok e ∧
      ((q, .create m password params hasPassphrase), .keystore (.ok ks))
        ∈ trace (Machine.exec P) S₀ front ∧
      wallet.cells (s.exec P (.unlock i password)).2.world = (e, false) := by
  subst hs
  generalize hs : final (Machine.exec P) S₀ front p = s at hunlock ⊢
  cases hget : s.contexts[i]? with
  | none =>
    rw [Client.exec_unlock_of_none hget] at hunlock
    cases hunlock
  | some ctx =>
    rw [Client.exec_unlock_of_some hget] at hunlock ⊢
    have hrun := Effect.run_of_outcome (Client.Answer.wallet.inj hunlock)
    obtain ⟨q, u, hq, ⟨hread, key, hkey, hopen⟩, rfl, hafter⟩ :=
      KeystoreContext.run_unlock_eq_ok_iff.mp hrun
    obtain ⟨plaintext, hid, -, -, hdec, hu⟩ := Envelope.openHeader_eq_ok_iff.mp hopen
    -- the associated data is the version and the id of the cipher, both checked to be 1
    have hver : (Envelope.header ctx.blob).version = 1 := hread.version_eq
    rw [hver, hid] at hdec
    have htries : S₀.TriesOn P calls front ctx.blob q :=
      ⟨p, i, password, back, hcalls, hs ▸ hget, hq⟩
    -- somebody encrypted what the cipher opened, and knew the password
    obtain ⟨created, e, pw, params, flag, ts, sealing, hsealed, hask⟩ :=
      hideal.unforged front ctx.blob q key plaintext htries hkey hdec
    have hinrun : S₀.Sealed P calls created sealing := hcalls ▸ hsealed.append _
    have hraw := derivedKey_eq_ok_iff.mp hkey
    rw [hask.key_eq] at hraw
    obtain rfl := hideal.password_eq created sealing hinrun front ctx.blob q htries hraw
    obtain rfl := hask.eq_of_unpacks (hideal.opens created sealing hinrun) hdec hu
    obtain ⟨r, m, ks, hmem, he, hpw, -⟩ := hsealed
    obtain rfl := hpw.inj hq
    refine ⟨r, m, params, flag, ks, e, he, hmem, ?_⟩
    change Wallet.cells _ (Effect.after (ctx.unlock P password) s.world) = _
    rw [hafter]
    exact Prod.ext (read_unlockedWorld_seed P s.world q (Envelope.headerCall ctx.blob q) e)
      (read_unlockedWorld_closed P s.world q (Envelope.headerCall ctx.blob q) e)

/-! ### A blob that is carried to another process -/

/-- One process creates a keystore, another one is given some bytes. -/
def givenCalls (blob : Bytes) : List (Bool × Client.Call) :=
  [(false, .create ⟨zeroPhrase⟩ pwPassword interactiveProfile false), (true, .context blob)]

/-- Then it tries the password on them. -/
def carriedCalls (blob : Bytes) : List (Bool × Client.Call) :=
  givenCalls blob ++ [(true, .unlock 0 pwPassword)]

/-- There is no other unlocking. -/
theorem split_carriedCalls {blob : Bytes} {front back : List (Bool × Client.Call)} {p : Bool}
    {i : ℕ} {password : PyStr}
    (h : carriedCalls blob = front ++ (p, .unlock i password) :: back) :
    front = givenCalls blob ∧ p = true ∧ i = 0 ∧ password = pwPassword := by
  unfold carriedCalls givenCalls at h
  -- the unlocking is the third call; after a shorter front another call stands
  rcases front with - | ⟨c₁, - | ⟨c₂, - | ⟨c₃, rest⟩⟩⟩
  · cases h
  · cases h
  · cases h
    exact ⟨rfl, rfl, rfl, rfl⟩
  · simp at h

section Carried

variable {ks : Keystore} {w : World}
  (hrun : (Keystore.create Primitives.locked ⟨zeroPhrase⟩ pwPassword interactiveProfile false).run
    zeroWorld = .ok ks w)
include hrun

theorem create_zeroMachine : ((zeroMachine false).exec Primitives.locked
    (.create ⟨zeroPhrase⟩ pwPassword interactiveProfile false)).1 = .keystore (.ok ks) :=
  congrArg Client.Answer.keystore (Effect.outcome_of_ok hrun)

/-- What was sealed in these calls is the keystore of the first. -/
theorem blob_of_sealed {blob : Bytes} {password : PyStr} {e pw : SecretBytes}
    {params : Argon2Params} {flag : Bool} {ts : ℤ}
    {s : Envelope.Sealing Primitives.locked e pw params flag ts}
    (h : zeroMachine.Sealed Primitives.locked (carriedCalls blob) password s) :
    params = interactiveProfile ∧ flag = false ∧ pw = pwWrapper ∧ s.blob = ks.blob := by
  obtain ⟨p, m, ks', hmem, -, hpw, hblob⟩ := h
  simp only [carriedCalls, givenCalls, List.cons_append, List.nil_append, trace_cons, trace_nil,
    List.mem_cons, Prod.mk.injEq, reduceCtorEq, Client.Call.create.injEq, and_false, false_and,
    List.not_mem_nil, or_false] at hmem
  obtain ⟨⟨-, -, rfl, rfl, rfl⟩, hks⟩ := hmem
  obtain rfl := Except.ok.inj (Client.Answer.keystore.inj (hks.trans (create_zeroMachine hrun)))
  exact ⟨rfl, rfl, hpw.unique encodes_pw, hblob.symm⟩

/-- The keystore was sealed with sixteen zeros of salt. -/
theorem exists_sealed : ∃ (e : SecretBytes) (s : Envelope.Sealing Primitives.locked e pwWrapper
      interactiveProfile false zeroWorld.clock.head), s.salt = List.replicate 16 0 ∧
    s.blob = ks.blob ∧
    zeroMachine.Sealed Primitives.locked (givenCalls ks.blob) pwPassword s := by
  obtain ⟨-, pw, e, hpw, he, s, hsalt, -, hks⟩ := Keystore.sealing_of_run_create hrun
  obtain rfl := hpw.unique encodes_pw
  have hblob : ks.blob = s.blob := by rw [hks]
  refine ⟨e, s, hsalt, hblob.symm, false, ⟨zeroPhrase⟩, ks, ?_, he, hpw, hblob⟩
  exact List.mem_cons.mpr (.inl (Prod.ext rfl (create_zeroMachine hrun).symm))

/-- So what was sealed in these calls has sixteen zeros of salt. -/
theorem salt_of_sealed {blob : Bytes} {password : PyStr} {e pw : SecretBytes} {ts : ℤ}
    {s : Envelope.Sealing Primitives.locked e pw interactiveProfile false ts}
    (h : zeroMachine.Sealed Primitives.locked (carriedCalls blob) password s) :
    s.salt = List.replicate 16 0 := by
  obtain ⟨-, -, -, hblob⟩ := blob_of_sealed hrun h
  obtain ⟨e₀, s₀, hsalt₀, hblob₀, -⟩ := exists_sealed hrun
  -- the salt can be read off the blob
  have hheader := congrArg Envelope.header (hblob.trans hblob₀.symm)
  rw [s.header_blob rfl, s₀.header_blob rfl, Envelope.Header.mk.injEq] at hheader
  exact hheader.2.2.2.1.trans hsalt₀

theorem ideal_carriedCalls : zeroMachine.Ideal Primitives.locked (carriedCalls ks.blob) where
  opens := by
    intro password e pw params flag ts s hs
    obtain ⟨rfl, rfl, rfl, -⟩ := blob_of_sealed hrun hs
    exact opens_of_salt s (salt_of_sealed hrun hs)
  password_eq := by
    intro password e pw params flag ts s hs front blob q _ hraw
    obtain ⟨rfl, rfl, rfl, -⟩ := blob_of_sealed hrun hs
    rw [key_of_salt s (salt_of_sealed hrun hs)] at hraw
    exact SecretBytes.ext (congrArg Argon2Call.secret (Primitives.eq_zeroCall hraw))
  unforged := by
    rintro front blob q key plaintext ⟨p, i, password, back, hcalls, hget, hq⟩ hkey _
    obtain ⟨rfl, rfl, rfl, rfl⟩ := split_carriedCalls hcalls
    obtain rfl : ks.blob = blob := congrArg KeystoreContext.blob (Option.some.inj hget)
    obtain ⟨e, s, -, hblob, hsealed⟩ := exists_sealed hrun
    obtain rfl := encodes_pw.unique hq
    -- the blob is the one that was sealed, so the key it asks for is the key of the sealing
    unfold Envelope.headerCall at hkey
    rw [← hblob, s.header_blob rfl] at hkey
    obtain rfl : s.key = key := Except.ok.inj (s.derived.symm.trans hkey)
    refine ⟨pwPassword, e, pwWrapper, interactiveProfile, false, _, s, hsealed, rfl, ?_, ?_⟩
    · rw [← hblob, s.header_blob rfl]
    · rw [← hblob, s.header_blob rfl]

theorem exists_unlock_carried : ∃ wallet,
    ((final (Machine.exec Primitives.locked) zeroMachine (givenCalls ks.blob) true).exec
      Primitives.locked (.unlock 0 pwPassword)).1 = .wallet (.ok wallet) := by
  obtain ⟨e, s, hsalt, hblob, -⟩ := exists_sealed hrun
  have hunpacks := s.unpacks rfl (opens_of_salt s hsalt)
  rw [hblob] at hunpacks
  have hget : (final (Machine.exec Primitives.locked) zeroMachine (givenCalls ks.blob)
      true).contexts[0]? = some ⟨ks.blob⟩ := rfl
  rw [Client.exec_unlock_of_some hget]
  exact ⟨_, congrArg Client.Answer.wallet (Effect.outcome_of_ok
    (KeystoreContext.run_unlock_eq_ok_iff.mpr ⟨pwWrapper, _, encodes_pw, hunpacks, rfl, rfl⟩))⟩

end Carried

theorem unlock_authentic_carriedCalls : ∃ (ks : Keystore) (wallet : Wallet) (s : Client),
    s = final (Machine.exec Primitives.locked) zeroMachine (givenCalls ks.blob) true ∧
    (s.exec Primitives.locked (.unlock 0 pwPassword)).1 = .wallet (.ok wallet) ∧
    ∃ q m params hasPassphrase ks' e, m.entropy = .ok e ∧
      ((q, .create m pwPassword params hasPassphrase), .keystore (.ok ks'))
        ∈ trace (Machine.exec Primitives.locked) zeroMachine (givenCalls ks.blob) ∧
      wallet.cells (s.exec Primitives.locked (.unlock 0 pwPassword)).2.world = (e, false) := by
  obtain ⟨ks, w, hrun, -⟩ := exists_create_locked
  obtain ⟨wallet, hwallet⟩ := exists_unlock_carried hrun
  exact ⟨ks, wallet, _, rfl, hwallet,
    unlock_authentic (ideal_carriedCalls hrun) (p := true) (i := 0) rfl rfl hwallet⟩

end KeystoneCrypto
