import KeystoneCrypto.Keystore.Sessions
import KeystoneCrypto.Lib.Vault

/-!
# Clients

A client of the library holds the objects its calls returned: keystores, contexts, wallets and
accounts, each numbered in the order of their making. `Client.exec` runs one call, with the answer
it gives; a call that raises returns no object, and a call on an object that does not exist is
`absent`. Mnemonics are values: `generate` hands one out, `create` takes whichever it is given.
Blobs need not come from the library either: `Call.context` takes any string of bytes.

What becomes of a client is read off `exec` once, in lemmas that tell the outcomes apart
(`exec_create_of_ok`, `exec_save_of_some`, ...); later proofs go by these. `steps_exec` is the rule
for the world: a relation that each method moves the world along is one that each call moves it
along.

`Call.toVault` and `Answer.toVault` say what calls and answers mean to a vault: a mnemonic is its
entropy, an account is its public key, a signature is its bytes, and whatever raises is a refusal.
A keystore with a salt of another length than 16 bytes is not sealed, whatever it was created for.
That each call of the vault comes from the call of the same name is shown at the end.
-/

namespace KeystoneCrypto

/-- What a client holds. -/
structure Client where
  session : Session
  keystores : List Keystore
  contexts : List KeystoreContext
  accounts : List Account

namespace Client

/-- The calls of a client. -/
inductive Call
  | generate (strength : ℤ)
  | create (m : Mnemonic) (password : PyStr) (params : Argon2Params) (hasPassphrase : Bool)
  | save (i : ℕ) (path : PyStr)
  | openFile (path : PyStr)
  | context (blob : Bytes)
  | unlock (i : ℕ) (password : PyStr)
  | derive (i : ℕ) (path : DerivationPath) (scheme : PyStr)
  | sign (i : ℕ) (path : DerivationPath) (message : Bytes) (scheme : PyStr)
  | accountSign (j : ℕ) (message : Bytes)
  | close (i : ℕ)
  deriving DecidableEq

/-- What a call returns or raises. -/
inductive Answer
  | mnemonic (r : Except PyExc Mnemonic)
  | keystore (r : Except PyExc Keystore)
  | context (r : Except PyExc KeystoreContext)
  | wallet (r : Except PyExc Wallet)
  | account (r : Except PyExc Account)
  | signature (r : Except PyExc Signature)
  | bytes (r : Except PyExc Bytes)
  | done (r : Except PyExc Unit)
  /-- There is no object of this number. -/
  | absent

/-- The state of the interpreter. -/
abbrev world (s : Client) : World := s.session.world

/-- The same objects in another state of the interpreter. -/
def withWorld (s : Client) (w : World) : Client :=
  { s with session := { s.session with world := w } }

/-- One call: its answer, and the client afterwards. -/
def exec (P : Primitives) (s : Client) : Call → Answer × Client
  | .generate strength =>
    let x := Mnemonic.generate P strength
    -- the mnemonic is handed out and not kept
    (.mnemonic (Effect.outcome x s.world), s.withWorld (Effect.after x s.world))
  | .create m password params hasPassphrase =>
    let x := Keystore.create P m password params hasPassphrase
    (.keystore (Effect.outcome x s.world),
      { s.withWorld (Effect.after x s.world) with
        -- if the call raises, no keystore joins
        keystores := s.keystores ++ (Effect.outcome x s.world).toOption.toList })
  | .save i path =>
    match s.keystores[i]? with
    | none => (.absent, s)
    | some ks =>
      (.done (Effect.outcome (ks.save path) s.world),
        s.withWorld (Effect.after (ks.save path) s.world))
  | .openFile path =>
    let x := Keystore.openFile path
    (.context (Effect.outcome x s.world),
      { s.withWorld (Effect.after x s.world) with
        contexts := s.contexts ++ (Effect.outcome x s.world).toOption.toList })
  -- `KeystoreContext(blob)`: the bytes are not looked at before they are unlocked
  | .context blob => (.context (.ok ⟨blob⟩), { s with contexts := s.contexts ++ [⟨blob⟩] })
  | .unlock i password =>
    match s.contexts[i]? with
    | none => (.absent, s)
    | some ctx =>
      (.wallet (Effect.outcome (ctx.unlock P password) s.world),
        -- the wallet joins the session, with its buffer and its flag
        { s with session := s.session.exec P ctx (.unlock password) })
  | .derive i path scheme =>
    match s.session.wallets[i]? with
    | none => (.absent, s)
    | some wallet =>
      let x := wallet.deriveAccount P path scheme
      (.account (Effect.outcome x s.world),
        { s.withWorld (Effect.after x s.world) with
          accounts := s.accounts ++ (Effect.outcome x s.world).toOption.toList })
  | .sign i path message scheme =>
    match s.session.wallets[i]? with
    | none => (.absent, s)
    | some wallet =>
      let x := wallet.signMessage P path message scheme
      (.signature (Effect.outcome x s.world), s.withWorld (Effect.after x s.world))
  | .accountSign j message =>
    match s.accounts[j]? with
    | none => (.absent, s)
    | some account =>
      let x := account.sign P message
      (.bytes (Effect.outcome x s.world), s.withWorld (Effect.after x s.world))
  | .close i =>
    match s.session.wallets[i]? with
    | none => (.absent, s)
    | some wallet =>
      (.done (Effect.outcome wallet.close s.world),
        s.withWorld (Effect.after wallet.close s.world))

/-- A client that holds nothing yet. -/
def start (w : World) : Client := ⟨Session.start w, [], [], []⟩

section Exec

variable {P : Primitives} {s : Client}

theorem exec_generate {strength : ℤ} {r : Except PyExc Mnemonic}
    (h : Effect.outcome (Mnemonic.generate P strength) s.world = r) :
    s.exec P (.generate strength)
      = (.mnemonic r, s.withWorld (Effect.after (Mnemonic.generate P strength) s.world)) := by
  rw [← h]
  rfl

theorem exec_create_of_ok {m : Mnemonic} {password : PyStr} {params : Argon2Params}
    {hasPassphrase : Bool} {ks : Keystore}
    (h : Effect.outcome (Keystore.create P m password params hasPassphrase) s.world = .ok ks) :
    s.exec P (.create m password params hasPassphrase) = (.keystore (.ok ks),
      { s.withWorld (Effect.after (Keystore.create P m password params hasPassphrase) s.world) with
        keystores := s.keystores ++ [ks] }) := by
  simp only [exec, h]
  rfl

theorem exec_create_of_error {m : Mnemonic} {password : PyStr} {params : Argon2Params}
    {hasPassphrase : Bool} {x : PyExc}
    (h : Effect.outcome (Keystore.create P m password params hasPassphrase) s.world = .error x) :
    s.exec P (.create m password params hasPassphrase) = (.keystore (.error x),
      s.withWorld (Effect.after (Keystore.create P m password params hasPassphrase) s.world)) := by
  simp only [exec, h]
  -- no keystore joins
  exact congrArg (fun l => (_, Client.mk _ l _ _)) (List.append_nil _)

theorem exec_save_of_some {i : ℕ} {ks : Keystore} (h : s.keystores[i]? = some ks) (path : PyStr) :
    s.exec P (.save i path) = (.done ((s.world.disk.write path ks.blob).1.mapError Subtype.val),
      s.withWorld { s.world with disk := (s.world.disk.write path ks.blob).2 }) := by
  simp only [exec, h, Keystore.save, outcome_writeBytes, after_writeBytes]

theorem exec_save_of_none {i : ℕ} (h : s.keystores[i]? = none) (path : PyStr) :
    s.exec P (.save i path) = (.absent, s) := by
  simp only [exec, h]

/-- Opening a file reads its bytes, whatever they are. -/
theorem exec_openFile_of_ok {path : PyStr} {blob : Bytes}
    (h : (s.world.disk.read .noSuchFile path).1 = .ok blob) :
    s.exec P (.openFile path) = (.context (.ok ⟨blob⟩),
      { s.withWorld { s.world with disk := s.world.disk.used } with
        contexts := s.contexts ++ [⟨blob⟩] }) := by
  -- `open` is `read_bytes` and the constructor, which cannot fail
  have hrun : (Keystore.openFile path).run s.world
      = .ok ⟨blob⟩ { s.world with disk := s.world.disk.used } := by
    unfold Keystore.openFile
    rw [Effect.run_bind_of_ok (run_readBytes_of_ok _ h)]
    rfl
  simp only [exec, Effect.outcome_of_ok hrun, Effect.after_of_ok hrun]
  rfl

theorem exec_openFile_of_error {path : PyStr} {e : IoError}
    (h : (s.world.disk.read .noSuchFile path).1 = .error e) :
    s.exec P (.openFile path)
      = (.context (.error e), s.withWorld { s.world with disk := s.world.disk.used }) := by
  have hrun : (Keystore.openFile path).run s.world
      = .error e { s.world with disk := s.world.disk.used } :=
    Effect.run_bind_of_error (run_readBytes_of_error _ h)
  simp only [exec, Effect.outcome_of_error hrun, Effect.after_of_error hrun]
  exact congrArg (fun l => (_, Client.mk _ _ l _)) (List.append_nil _)

theorem exec_unlock_of_some {i : ℕ} {ctx : KeystoreContext} (h : s.contexts[i]? = some ctx)
    (password : PyStr) : s.exec P (.unlock i password)
      = (.wallet (Effect.outcome (ctx.unlock P password) s.world),
        { s with session := s.session.exec P ctx (.unlock password) }) := by
  simp only [exec, h]

theorem exec_unlock_of_none {i : ℕ} (h : s.contexts[i]? = none) (password : PyStr) :
    s.exec P (.unlock i password) = (.absent, s) := by
  simp only [exec, h]

/-- Deriving leaves the world as it is. -/
theorem exec_derive_of_ok {i : ℕ} {wallet : Wallet} (h : s.session.wallets[i]? = some wallet)
    {path : DerivationPath} {scheme : PyStr} {account : Account}
    (hout : Effect.outcome (wallet.deriveAccount P path scheme) s.world = .ok account) :
    s.exec P (.derive i path scheme)
      = (.account (.ok account), { s with accounts := s.accounts ++ [account] }) := by
  simp only [exec, h, hout, Wallet.after_deriveAccount]
  rfl

theorem exec_derive_of_error {i : ℕ} {wallet : Wallet} (h : s.session.wallets[i]? = some wallet)
    {path : DerivationPath} {scheme : PyStr} {x : PyExc}
    (hout : Effect.outcome (wallet.deriveAccount P path scheme) s.world = .error x) :
    s.exec P (.derive i path scheme) = (.account (.error x), s) := by
  simp only [exec, h, hout, Wallet.after_deriveAccount]
  exact congrArg (fun l => (_, Client.mk _ _ _ l)) (List.append_nil _)

theorem exec_derive_of_none {i : ℕ} (h : s.session.wallets[i]? = none) (path : DerivationPath)
    (scheme : PyStr) : s.exec P (.derive i path scheme) = (.absent, s) := by
  simp only [exec, h]

theorem exec_sign_of_some {i : ℕ} {wallet : Wallet} (h : s.session.wallets[i]? = some wallet)
    (path : DerivationPath) (message : Bytes) (scheme : PyStr) :
    s.exec P (.sign i path message scheme)
      = (.signature (Effect.outcome (wallet.signMessage P path message scheme) s.world),
        s.withWorld (Effect.after (wallet.signMessage P path message scheme) s.world)) := by
  simp only [exec, h]

theorem exec_sign_of_none {i : ℕ} (h : s.session.wallets[i]? = none) (path : DerivationPath)
    (message : Bytes) (scheme : PyStr) : s.exec P (.sign i path message scheme) = (.absent, s) := by
  simp only [exec, h]

theorem exec_accountSign_of_some {j : ℕ} {account : Account} (h : s.accounts[j]? = some account)
    (message : Bytes) : s.exec P (.accountSign j message)
      = (.bytes (Effect.outcome (account.sign P message) s.world),
        s.withWorld (Effect.after (account.sign P message) s.world)) := by
  simp only [exec, h]

theorem exec_accountSign_of_none {j : ℕ} (h : s.accounts[j]? = none) (message : Bytes) :
    s.exec P (.accountSign j message) = (.absent, s) := by
  simp only [exec, h]

theorem exec_close_of_some {i : ℕ} {wallet : Wallet} (h : s.session.wallets[i]? = some wallet) :
    s.exec P (.close i)
      = (.done (.ok ()), s.withWorld (Effect.after wallet.close s.world)) := by
  simp only [exec, h]
  rfl

theorem exec_close_of_none {i : ℕ} (h : s.session.wallets[i]? = none) :
    s.exec P (.close i) = (.absent, s) := by
  simp only [exec, h]

/-- **The world of a call.** Whatever the methods do to the world, calls do. -/
theorem steps_exec {R : World → World → Prop} (s : Client) (hrefl : ∀ w, R w w)
    (hgenerate : ∀ strength, Effect.Steps R (Mnemonic.generate P strength))
    (hcreate : ∀ m password params hasPassphrase,
      Effect.Steps R (Keystore.create P m password params hasPassphrase))
    (hsave : ∀ ks path, Effect.Steps R (Keystore.save ks path))
    (hopen : ∀ path, Effect.Steps R (Keystore.openFile path))
    (hunlock : ∀ ctx password, Effect.Steps R (KeystoreContext.unlock P ctx password))
    (hsign : ∀ wallet path message scheme,
      Effect.Steps R (Wallet.signMessage P wallet path message scheme))
    (haccountSign : ∀ account message, Effect.Steps R (Account.sign P account message))
    (hclose : ∀ wallet, Effect.Steps R (Wallet.close wallet)) (c : Call) :
    R s.world (s.exec P c).2.world := by
  -- an object that does not exist is no reason to touch the world
  cases c with
  | generate strength => exact hgenerate strength s.world
  | create m password params hasPassphrase => exact hcreate m password params hasPassphrase s.world
  | save i path =>
    cases h : s.keystores[i]? with
    | none =>
      rw [exec_save_of_none h]
      exact hrefl _
    | some ks =>
      have hstep := hsave ks path s.world
      rw [Keystore.save, after_writeBytes] at hstep
      rw [exec_save_of_some h]
      exact hstep
  | openFile path => exact hopen path s.world
  | context blob => exact hrefl _
  | unlock i password =>
    cases h : s.contexts[i]? with
    | none =>
      rw [exec_unlock_of_none h]
      exact hrefl _
    | some ctx =>
      rw [exec_unlock_of_some h]
      exact hunlock ctx password s.world
  | derive i path scheme =>
    cases h : s.session.wallets[i]? with
    | none =>
      rw [exec_derive_of_none h]
      exact hrefl _
    | some wallet =>
      -- deriving leaves the world alone
      cases hout : Effect.outcome (wallet.deriveAccount P path scheme) s.world with
      | error x =>
        rw [exec_derive_of_error h hout]
        exact hrefl _
      | ok account =>
        rw [exec_derive_of_ok h hout]
        exact hrefl _
  | sign i path message scheme =>
    cases h : s.session.wallets[i]? with
    | none =>
      rw [exec_sign_of_none h]
      exact hrefl _
    | some wallet =>
      rw [exec_sign_of_some h]
      exact hsign wallet path message scheme s.world
  | accountSign j message =>
    cases h : s.accounts[j]? with
    | none =>
      rw [exec_accountSign_of_none h]
      exact hrefl _
    | some account =>
      rw [exec_accountSign_of_some h]
      exact haccountSign account message s.world
  | close i =>
    cases h : s.session.wallets[i]? with
    | none =>
      rw [exec_close_of_none h]
      exact hrefl _
    | some wallet =>
      rw [exec_close_of_some h]
      exact hclose wallet s.world

end Exec

/-! ### What calls and answers mean to a vault -/

/-- The keys of an entropy: path and scheme lead to an account. -/
def keyring (P : Primitives) :
    Vault.Keyring SecretBytes (DerivationPath × PyStr) Bytes Bytes Bytes where
  publicOf seed k := (Wallet.accountOf P seed k.1 k.2).toOption.map Account.publicKey
  Signs seed k message raw := ∃ aux,
    (Wallet.signatureOf P seed k.1 aux message k.2).toOption.map Signature.serialize = raw

/-- A call on a vault. -/
abbrev VaultCall := Vault.Call SecretBytes PyStr PyStr (DerivationPath × PyStr) Bytes

/-- The meaning of a call. -/
def Call.toVault : Call → VaultCall
  | .generate _ => .generate
  | .create m password params _ =>
    -- `unpack` reads 16 bytes of salt; what is packed with another number is not sealed
    if params.saltLen = 16 then .create m.entropy.toOption password else .createLoose
  | .save i path => .save i path
  | .openFile path => .openFile path
  | .context _ => .load
  | .unlock i password => .unlock i password
  | .derive i path scheme => .derive i (path, scheme)
  | .sign i path message scheme => .sign i (path, scheme) message
  | .accountSign j message => .signWith j message
  | .close i => .close i

namespace Call

theorem toVault_create_of_eq {params : Argon2Params} (h16 : params.saltLen = 16) (m : Mnemonic)
    (password : PyStr) (hasPassphrase : Bool) :
    (Call.create m password params hasPassphrase).toVault = .create m.entropy.toOption password :=
  if_pos h16

theorem toVault_create_of_ne {params : Argon2Params} (h16 : params.saltLen ≠ 16) (m : Mnemonic)
    (password : PyStr) (hasPassphrase : Bool) :
    (Call.create m password params hasPassphrase).toVault = .createLoose := if_neg h16

theorem toVault_create_cases (m : Mnemonic) (password : PyStr) (params : Argon2Params)
    (hasPassphrase : Bool) :
    (Call.create m password params hasPassphrase).toVault = .create m.entropy.toOption password ∨
      (Call.create m password params hasPassphrase).toVault = .createLoose := by
  by_cases h16 : params.saltLen = 16
  · exact .inl (toVault_create_of_eq h16 m password hasPassphrase)
  · exact .inr (toVault_create_of_ne h16 m password hasPassphrase)

/-- Only `save` saves. -/
theorem eq_save_of_toVault {c : Call} {i : ℕ} {path : PyStr} (h : c.toVault = .save i path) :
    c = .save i path := by
  cases c with
  -- a creation is one of two calls of the vault, neither of which saves
  | create m password params hasPassphrase =>
    obtain hcall | hcall := toVault_create_cases m password params hasPassphrase
    · cases hcall.symm.trans h
    · cases hcall.symm.trans h
  | save j path' =>
    cases h
    rfl
  | _ => cases h

/-- Only `unlock` unlocks. -/
theorem eq_unlock_of_toVault {c : Call} {i : ℕ} {password : PyStr}
    (h : c.toVault = .unlock i password) : c = .unlock i password := by
  cases c with
  | create m password' params hasPassphrase =>
    obtain hcall | hcall := toVault_create_cases m password' params hasPassphrase
    · cases hcall.symm.trans h
    · cases hcall.symm.trans h
  | unlock j password' =>
    cases h
    rfl
  | _ => cases h

/-- Only `create` creates. -/
theorem eq_create_of_toVault {c : Call} {x : Option SecretBytes} {password : PyStr}
    (h : c.toVault = .create x password) : ∃ m params hasPassphrase,
      c = .create m password params hasPassphrase ∧ m.entropy.toOption = x := by
  cases c with
  | create m password' params hasPassphrase =>
    obtain hcall | hcall := toVault_create_cases m password' params hasPassphrase
    -- the other call of the vault carries no secret
    · obtain ⟨rfl, rfl⟩ := Vault.Call.create.inj (hcall.symm.trans h)
      exact ⟨m, params, hasPassphrase, rfl, rfl⟩
    · cases hcall.symm.trans h
  | _ => cases h

end Call

/-- The meaning of an answer. -/
def Answer.toVault : Answer → Vault.Answer Bytes Bytes
  | .mnemonic (.ok _) => .done
  | .keystore (.ok _) => .done
  | .context (.ok _) => .done
  | .wallet (.ok _) => .done
  | .account (.ok a) => .publicKey a.publicKey
  | .signature (.ok sig) => .signature sig.serialize
  | .bytes (.ok raw) => .signature raw
  | .done (.ok _) => .done
  -- what raises, and what is absent
  | _ => .refused

end Client

end KeystoneCrypto
