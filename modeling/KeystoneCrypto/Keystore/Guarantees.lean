import KeystoneCrypto.Keystore.Processes
import KeystoneCrypto.Keystore.Recipe

/-!
# What clients can rely on

Results about arbitrary calls of any number of processes in arbitrary order.

* `unlock_after_save` is durability: a keystore that was saved is unlocked from its file with its
  password, in whichever process and under whichever name of the file, unless somebody has saved to
  it again. The calls are carried over to vaults that may confuse any passwords and fail at any
  time (`Vault.Slack.loose`); of a cipher nothing is needed but that it undoes its encryption.
  There it is `Vault.unlock_saved`, and `Simulates.recovers` reads the result back at the client.
* `sign_after_derive` is that an account goes on signing when its wallet is closed. An account holds
  its key by itself and keeps its number (`accounts_final`), so no simulation is needed.
* `needs_password` is the other direction, for primitives under which the sealings of the run are
  locked: what a client can use was created on this machine, and the client has unlocked it with the
  password it was created with. The vaults here confuse no passwords that are tried, and the
  invariant is theirs (`Vault.sourced`); calls, answers and the order of the calls are then traced
  back from the vaults to the clients (`opened_of_unlocked`).
-/

namespace KeystoneCrypto

open Trace

section Traces

variable {P : Primitives} {π : Type} [DecidableEq π] {S : Machine π}

/-- The calls of a trace are those that were made. -/
theorem exists_of_mem_vaultTrace {calls : List (π × Client.Call)}
    {e : (π × Client.VaultCall) × Vault.Answer Bytes Bytes} (h : e ∈ S.vaultTrace P calls) :
    ∃ c ∈ calls, c.1 = e.1.1 ∧ c.2.toVault = e.1.2 := by
  -- an entry of the vaults' trace is read off an entry of the clients'
  obtain ⟨⟨c, o⟩, hmem, rfl⟩ := List.mem_map.mp h
  have hc := List.mem_map_of_mem (f := Prod.fst) hmem
  rw [map_fst_trace] at hc
  exact ⟨c, hc, rfl, rfl⟩

end Traces

/-! ### Durability -/

/-- A machine that some calls lead to. -/
def Machine.Reached {π : Type} [DecidableEq π] (P : Primitives) (S : Machine π) : Prop :=
  ∃ files w calls, final (Machine.exec P) (.start files w) calls = S

/-- Unlocking the context `i` now yields an open wallet with the entropy of this mnemonic, and with
its words if the mnemonic is one that the library handed out. -/
def Client.Recovers (P : Primitives) (s : Client) (i : ℕ) (password : PyStr) (m : Mnemonic) :
    Prop :=
  ∃ e wallet, m.entropy = .ok e ∧ (s.exec P (.unlock i password)).1 = .wallet (.ok wallet) ∧
    wallet.cells (s.exec P (.unlock i password)).2.world = (e, false) ∧
    (Obtained P m → wallet.mnemonic = some ⟨PyStr.joinSpace m.phrase.split⟩)

section Durability

variable {P : Primitives} {s : Client} {v : VaultState}

/-- The next wallet of a vault, seen from the client. -/
theorem Simulates.recovers {L : Vault.Slack PyStr} {i : ℕ} {password : PyStr} {m : Mnemonic}
    {e : SecretBytes} {v' : VaultState} (he : m.entropy = .ok e) (h : Simulates P L s v)
    (h' : Simulates P L (s.exec P (.unlock i password)).2 v')
    (hdone : (s.exec P (.unlock i password)).1.toVault = .done)
    (hwallets : v'.wallets = v.wallets ++ [⟨e, false⟩]) : s.Recovers P i password m := by
  -- the call returned, so there is a context under the number and a wallet was unlocked
  cases hget : s.contexts[i]? with
  | none =>
    rw [Client.exec_unlock_of_none hget] at hdone
    cases hdone
  | some ctx =>
    have hexec := Client.exec_unlock_of_some (P := P) hget password
    cases hout : Effect.outcome (ctx.unlock P password) s.world with
    | error x =>
      rw [hexec, hout] at hdone
      cases hdone
    | ok wallet =>
      -- the new wallet is the last one on both sides
      have hlast := forall₂_iff_getElem?.mp h'.wallets v.wallets.length
      rw [hwallets, List.getElem?_concat_length, ← h.wallets.length_eq] at hlast
      have hsession : (s.exec P (.unlock i password)).2.session.wallets
          = s.session.wallets ++ [wallet] := by
        rw [hexec, Session.exec_unlock_of_ok hout]
      rw [hsession, List.getElem?_concat_length] at hlast
      cases hlast with
      | some hholds =>
        refine ⟨e, wallet, he, ?_, hholds.cells_eq, fun hm => ?_⟩
        · rw [hexec, hout]
        -- a phrase of the library has one of the five sizes, for which `unlock` rebuilds it
        · obtain ⟨e', he', hsize, hback⟩ := hm.exists_entropy
          obtain rfl : e' = e := Except.ok.inj (he'.symm.trans he)
          rw [hholds.mnemonic_eq, reconstruct_of_mem hsize hback]

/-- Where the vaults may take any password for any other, nothing is assumed of a call. -/
theorem secures_loose (hP : P.AesGcmUndoes) (s : Client) (c : Client.Call) :
    Secures P (Vault.Slack.loose PyStr).Accepts s c :=
  secures_of_undoes hP fun _ _ _ _ _ _ _ _ _ _ _ _ _ => trivial

variable {π : Type} [DecidableEq π] {S : Machine π} {V : π → VaultState}

theorem runs_loose (hP : P.AesGcmUndoes) (h : ∀ p, Simulates P (.loose PyStr) (S p) (V p))
    (calls : List (π × Client.Call)) :
    ∃ V', Vault.Runs (Client.keyring P) (.loose PyStr) V (S.vaultTrace P calls) V' ∧
      ∀ p, Simulates P (.loose PyStr) (final (Machine.exec P) S calls p) (V' p) :=
  runs_of_simulates h (throughout_of_forall _ fun c _ T => secures_loose hP (T c.1) c.2)

theorem Machine.Reached.exists_simulates (hP : P.AesGcmUndoes) (hS : S.Reached P) :
    ∃ V : π → VaultState, ∀ p, Simulates P (.loose PyStr) (S p) (V p) := by
  obtain ⟨files, w, calls, rfl⟩ := hS
  obtain ⟨V, -, hV⟩ := runs_loose hP (S := .start files w)
    (fun p => simulates_start (absurd trivial) (absurd trivial)) calls
  exact ⟨V, hV⟩

/-- Calls that save to other files only do so in the vaults. -/
theorem spares_vaultTrace {L : Vault.Slack PyStr} (hV : ∀ p, Simulates P L (S p) (V p))
    {calls : List (π × Client.Call)} {file : PyStr}
    (hkeep : ∀ r i path, (r, .save i path) ∈ calls → (S r).world.disk.locate path ≠ .ok file)
    (T : Machine π) : Vault.Spares V (T.vaultTrace P calls) file := by
  intro e he i path hsave hfile
  -- the call of the vault is a save of some client, and its name leads where the path does
  obtain ⟨⟨r, c⟩, hc, hr, hce⟩ := exists_of_mem_vaultTrace he
  obtain rfl := Client.Call.eq_save_of_toVault (hce.trans hsave)
  exact hkeep e.1.1 i path (by rwa [← hr]) ((hV _).disk.ok_of_locate hfile)

end Durability

/-- **Durability.** A process creates a keystore with 16 bytes of salt and saves it to a file; other
calls of any processes follow, none of which saves to this file under any of its names; one of the
processes opens the file, under whichever name; again other calls follow. There the password unlocks
what was stored. -/
theorem unlock_after_save {P : Primitives} (hP : P.AesGcmUndoes) {π : Type} [DecidableEq π]
    {S : Machine π} (hS : S.Reached P) {p q : π} {m : Mnemonic} {password : PyStr}
    {params : Argon2Params} {hasPassphrase : Bool} {ks : Keystore} (hsalt : params.saltLen = 16)
    (hcreate : ((S p).exec P (.create m password params hasPassphrase)).1 = .keystore (.ok ks))
    {path path' file : PyStr} (hpath : (S p).world.disk.locate path = .ok file)
    (hpath' : (S q).world.disk.locate path' = .ok file) {l₁ l₂ l₃ : List (π × Client.Call)}
    (hkeep : ∀ r i other, (r, .save i other) ∈ l₂ → (S r).world.disk.locate other ≠ .ok file)
    {S₁ S₂ S₃ : Machine π} {ctx : KeystoreContext}
    (hS₁ : S₁ = final (Machine.exec P) S ((p, .create m password params hasPassphrase) :: l₁))
    (hsave : ((S₁ p).exec P (.save (S p).keystores.length path)).1 = .done (.ok ()))
    (hS₂ : S₂ = final (Machine.exec P) S₁ ((p, .save (S p).keystores.length path) :: l₂))
    (hopen : ((S₂ q).exec P (.openFile path')).1 = .context (.ok ctx))
    (hS₃ : S₃ = final (Machine.exec P) S₂ ((q, .openFile path') :: l₃)) :
    (S₃ q).Recovers P (S₂ q).contexts.length password m := by
  subst hS₁ hS₂ hS₃
  simp only [final_cons] at hsave hopen ⊢
  obtain ⟨V, hV⟩ := hS.exists_simulates hP
  have hks : Effect.outcome (Keystore.create P m password params hasPassphrase) (S p).world
      = .ok ks := Client.Answer.keystore.inj hcreate
  -- creating has read an entropy, which becomes the secret of the safe
  obtain ⟨-, -, e, -, he, -⟩ := Keystore.sealing_of_run_create (Effect.run_of_outcome hks)
  -- the vaults along the calls
  obtain ⟨V₀, hcreated, hV₀⟩ := step_of_simulates hV
    (secures_loose hP (S p) (.create m password params hasPassphrase))
  rw [hcreate, Client.Call.toVault_create he hsalt] at hcreated
  obtain ⟨V₁, hrun₁, hV₁⟩ := runs_loose hP hV₀ l₁
  obtain ⟨V₂, hsaved, hV₂⟩ := step_of_simulates (p := p)
    (c := .save (S p).keystores.length path) hV₁ trivial
  rw [hsave, (hV p).keystores.length_eq] at hsaved
  obtain ⟨V₃, hrun₂, hV₃⟩ := runs_loose hP hV₂ l₂
  obtain ⟨V₄, hopened, hV₄⟩ := step_of_simulates (p := q) (c := .openFile path') hV₃ trivial
  rw [hopen] at hopened
  obtain ⟨V₅, hrun₃, hV₅⟩ := runs_loose hP hV₄ l₃
  obtain ⟨V₆, hunlocked, hV₆⟩ :=
    step_of_simulates (p := q) (c := .unlock (V₃ q).contexts.length password) hV₅ trivial
  -- what holds of vaults is read back at the client that unlocks
  obtain ⟨hdone, hwallets⟩ := Vault.unlock_saved ((hV p).disk.locate_of_ok hpath)
    ((hV q).disk.locate_of_ok hpath') hcreated hrun₁ hsaved hrun₂ (spares_vaultTrace hV hkeep _)
    hopened hrun₃ hunlocked
  have hnext := hV₆ q
  rw [Processes.exec_self] at hnext
  rw [(hV₃ q).contexts.length_eq]
  exact (hV₅ q).recovers he hnext hdone hwallets

/-- A machine on which nothing was called. -/
theorem reached_zeroMachine (P : Primitives) : zeroMachine.Reached P := ⟨_, _, [], rfl⟩

section TwoProcesses

variable {P : Primitives} {m : Mnemonic} {params : Argon2Params} {ks : Keystore} {w : World}
  (hrun : (Keystore.create P m pwPassword params false).run zeroWorld = .ok ks w)
include hrun

/-- What creating leaves of the client. -/
theorem exec_create_zeroMachine : (zeroMachine false).exec P (.create m pwPassword params false)
    = (.keystore (.ok ks), ⟨⟨w, []⟩, [ks], [], []⟩) := by
  have hout : Effect.outcome (Keystore.create P m pwPassword params false)
      (zeroMachine false).world = .ok ks := Effect.outcome_of_ok hrun
  have hafter : Effect.after (Keystore.create P m pwPassword params false)
      (zeroMachine false).world = w := Effect.after_of_ok hrun
  rw [Client.exec_create_of_ok hout, hafter]
  rfl

/-- The two processes then. -/
theorem final_create_zeroMachine : final (Machine.exec P) zeroMachine
      [(false, .create m pwPassword params false)]
    = Processes.update Client.share zeroMachine false ⟨⟨w, []⟩, [ks], [], []⟩ :=
  congrArg (fun x : Client.Answer × Client =>
    Processes.update Client.share zeroMachine false x.2) (exec_create_zeroMachine hrun)

end TwoProcesses

/-- The keystore is saved as `k`, and to another file before the other process opens `./k`, where a
wrong password is tried before the right one. -/
theorem unlock_after_save_zeroPhrase : ∃ S₂ S₃ : Machine Bool,
    S₂ = final (Machine.exec Primitives.toy) zeroMachine
      [(false, .create ⟨zeroPhrase⟩ pwPassword interactiveProfile false), (false, .save 0 [0x6B]),
        (false, .save 0 [0x6C])] ∧
    S₃ = final (Machine.exec Primitives.toy) S₂
      [(true, .openFile [0x2E, 0x2F, 0x6B]), (true, .unlock 0 [0x6E])] ∧
    (S₃ true).Recovers Primitives.toy (S₂ true).contexts.length pwPassword ⟨zeroPhrase⟩ := by
  obtain ⟨ks, w, hrun, -, hdisk⟩ := exists_create (m := ⟨zeroPhrase⟩) (w := zeroWorld)
    Primitives.toy_undoes zeroPhrase_entropy (by decide) (show pwPassword ≠ [] by decide)
    encodes_pw profiles_public.1 rfl rfl false (by decide) (by decide)
  -- of the world after creating only the file system matters to the next calls
  obtain ⟨random, clock, kdfCalls, secrets, flags, disk⟩ := w
  obtain rfl : disk = .blank := hdisk
  have hcreate := congrArg Prod.fst (exec_create_zeroMachine hrun)
  have hS₁ := final_create_zeroMachine hrun
  generalize hS₁' : final (Machine.exec Primitives.toy) zeroMachine
    [(false, .create ⟨zeroPhrase⟩ pwPassword interactiveProfile false)] = S₁ at hS₁
  have hS₂ := final_append (Machine.exec Primitives.toy) zeroMachine
    [(false, .create ⟨zeroPhrase⟩ pwPassword interactiveProfile false)]
    [(false, .save 0 [0x6B]), (false, .save 0 [0x6C])]
  rw [hS₁'] at hS₂
  have hpath : (zeroMachine false).world.disk.locate [0x6B] = .ok [0x6B] := rfl
  have hpath' : (zeroMachine true).world.disk.locate [0x2E, 0x2F, 0x6B] = .ok [0x6B] := rfl
  have hkeep : ∀ r i other, (r, .save i other) ∈ ([(false, .save 0 [0x6C])] :
      List (Bool × Client.Call)) → (zeroMachine r).world.disk.locate other ≠ .ok [0x6B] := by
    intro r i other hmem
    obtain ⟨rfl, hsave⟩ := Prod.ext_iff.mp (List.mem_singleton.mp hmem)
    obtain ⟨rfl, rfl⟩ := Client.Call.save.inj hsave
    decide
  have hopen : ((final (Machine.exec Primitives.toy) S₁
      [(false, .save 0 [0x6B]), (false, .save 0 [0x6C])] true).exec Primitives.toy
      (.openFile [0x2E, 0x2F, 0x6B])).1 = .context (.ok ⟨ks.blob⟩) := by
    rw [hS₁]
    rfl
  refine ⟨_, _, hS₂.symm, rfl, unlock_after_save Primitives.toy_undoes (reached_zeroMachine _) rfl
    hcreate hpath hpath' hkeep hS₁'.symm ?_ rfl hopen rfl⟩
  rw [hS₁]
  rfl

/-! ### Accounts -/

section Accounts

variable {P : Primitives}

/-- Accounts keep their numbers. -/
theorem Client.accounts_exec (s : Client) (c : Client.Call) :
    s.accounts <+: (s.exec P c).2.accounts := by
  -- only `derive_account` appends to the accounts
  cases c with
  | derive i path scheme =>
    simp only [exec]
    split
    · exact List.prefix_rfl
    · exact List.prefix_append _ _
  | generate strength => exact List.prefix_rfl
  | create m password params hasPassphrase => exact List.prefix_rfl
  | openFile file => exact List.prefix_rfl
  | context blob => exact List.prefix_rfl
  | save i file =>
    simp only [exec]
    split <;> exact List.prefix_rfl
  | unlock i password =>
    simp only [exec]
    split <;> exact List.prefix_rfl
  | sign i path message scheme =>
    simp only [exec]
    split <;> exact List.prefix_rfl
  | accountSign j message =>
    simp only [exec]
    split <;> exact List.prefix_rfl
  | close i =>
    simp only [exec]
    split <;> exact List.prefix_rfl

theorem accounts_final (P : Primitives) {π : Type} [DecidableEq π] (S : Machine π)
    (calls : List (π × Client.Call)) (p : π) :
    (S p).accounts <+: (final (Machine.exec P) S calls p).accounts :=
  Processes.final_moves (R := fun s s' : Client => s.accounts <+: s'.accounts)
    (fun _ => List.prefix_rfl) (fun h₁ h₂ => h₁.trans h₂)
    (fun s s' => show s.accounts <+: (s.share s').accounts from List.prefix_rfl)
    Client.accounts_exec S calls p

/-- What `derive_account` returns is the next account of the client. -/
theorem Client.accounts_of_derive {s : Client} {i : ℕ} {path : DerivationPath} {scheme : PyStr}
    {account : Account} (h : (s.exec P (.derive i path scheme)).1 = .account (.ok account)) :
    (s.exec P (.derive i path scheme)).2.accounts = s.accounts ++ [account] ∧
      ∃ seed, Wallet.accountOf P seed path scheme = .ok account := by
  -- an account was returned, so the wallet exists and has derived it
  cases hget : s.session.wallets[i]? with
  | none =>
    rw [Client.exec_derive_of_none hget] at h
    cases h
  | some wallet =>
    cases hout : Effect.outcome (wallet.deriveAccount P path scheme) s.world with
    | error x =>
      rw [Client.exec_derive_of_error hget hout] at h
      cases h
    | ok account' =>
      rw [Client.exec_derive_of_ok hget hout] at h ⊢
      cases h
      refine ⟨rfl, s.world.secrets.read wallet.seed, ?_⟩
      exact (Wallet.run_deriveAccount_eq_ok_iff.mp (Effect.run_of_outcome hout)).2.1

/-- An account signs whatever has become of its wallet. -/
theorem Account.sign_accepted (hP : P.SignsHonestly) {seed : SecretBytes} {path : DerivationPath}
    {scheme : PyStr} {account : Account} (h : Wallet.accountOf P seed path scheme = .ok account)
    (message : Bytes) (w : World) : ∃ raw, Effect.outcome (account.sign P message) w = .ok raw ∧
      raw.length = 64 ∧
      (⟨scheme, raw, account.publicKey⟩ : Signature).verify P message none = .ok true := by
  obtain ⟨hkey, hscheme, hsize⟩ := Wallet.account_of_accountOf h
  obtain ⟨sig, w', hsign, hlen, hkey', haccepted⟩ := Signer.run_sign_accepted hP message w hsize
  -- a signature carries the scheme and the public key of its signer
  have hsig : sig = ⟨scheme, sig.raw, account.publicKey⟩ := by
    have hsigScheme := (Signer.scheme_of_run_sign hsign).trans hscheme
    cases sig
    simp only [Signature.mk.injEq, true_and]
    exact ⟨hsigScheme, hkey'.trans hkey.symm⟩
  refine ⟨sig.raw, ?_, hlen, hsig ▸ haccepted none rfl⟩
  unfold Account.sign Effect.outcome
  rw [Effect.run_bind_of_ok hsign]
  rfl

end Accounts

/-- **Accounts outlive their wallets.** A process derives an account; whatever calls follow, the
wallet being closed included, the account signs every message with 64 bytes that verify under its
public key and its scheme. -/
theorem sign_after_derive {P : Primitives} (hP : P.SignsHonestly) {π : Type} [DecidableEq π]
    {S : Machine π} {p : π} {i : ℕ} {path : DerivationPath} {scheme : PyStr} {account : Account}
    (hderive : ((S p).exec P (.derive i path scheme)).1 = .account (.ok account))
    (calls : List (π × Client.Call)) (message : Bytes) :
    ∃ raw, ((final (Machine.exec P) S ((p, .derive i path scheme) :: calls) p).exec P
        (.accountSign (S p).accounts.length message)).1 = .bytes (.ok raw) ∧ raw.length = 64 ∧
      (⟨scheme, raw, account.publicKey⟩ : Signature).verify P message none = .ok true := by
  obtain ⟨haccounts, seed, haccount⟩ := Client.accounts_of_derive hderive
  -- whatever is called, the account keeps its number
  have hgrows := accounts_final P (Machine.exec P S (p, .derive i path scheme)).2 calls p
  rw [Processes.exec_self, haccounts] at hgrows
  have hget := Vault.getElem?_of_isPrefix hgrows List.getElem?_concat_length
  rw [final_cons, Client.exec_accountSign_of_some hget]
  obtain ⟨raw, hout, hlen, hverify⟩ := Account.sign_accepted hP haccount message _
  exact ⟨raw, congrArg Client.Answer.bytes hout, hlen, hverify⟩

/-- A client with one open wallet. -/
def seedClient : Client :=
  ⟨⟨Wallet.seedWorld Wallet.zeroSeed, [Wallet.seedWallet]⟩, [], [], []⟩

/-- The wallet is closed before the account signs. -/
theorem sign_after_derive_closed : ∃ account raw,
    (seedClient.exec Primitives.toy (.derive 0 Wallet.firstAccountPath ecdsaScheme)).1
      = .account (.ok account) ∧
    ((final (Machine.exec Primitives.toy) (fun _ : Bool => seedClient)
        [(true, .derive 0 Wallet.firstAccountPath ecdsaScheme), (true, .close 0)] true).exec
        Primitives.toy (.accountSign 0 [1, 2, 3])).1 = .bytes (.ok raw) ∧ raw.length = 64 ∧
      (⟨ecdsaScheme, raw, account.publicKey⟩ : Signature).verify Primitives.toy [1, 2, 3] none
        = .ok true := by
  obtain ⟨account, hrun⟩ := Wallet.exists_zeroSeed_account
  have hderive : (seedClient.exec Primitives.toy
      (.derive 0 Wallet.firstAccountPath ecdsaScheme)).1 = .account (.ok account) :=
    congrArg Client.Answer.account (Effect.outcome_of_ok hrun)
  obtain ⟨raw, hsign⟩ := sign_after_derive (S := fun _ : Bool => seedClient) (p := true)
    Primitives.toy_signsHonestly hderive [(true, .close 0)] [1, 2, 3]
  exact ⟨account, raw, hderive, hsign⟩

/-! ### No secret without its password -/

/-- In this run a mnemonic with the entropy `e` was created into a keystore, and the process `p`
later unlocked a wallet with the password of that creation. -/
def Machine.Opened {π : Type} [DecidableEq π] (P : Primitives) (S : Machine π)
    (calls : List (π × Client.Call)) (p : π) (e : SecretBytes) : Prop :=
  ∃ front j password back wallet, calls = front ++ (p, .unlock j password) :: back ∧
    ((final (Machine.exec P) S front p).exec P (.unlock j password)).1 = .wallet (.ok wallet) ∧
    ∃ q m params hasPassphrase ks, m.entropy = .ok e ∧
      ((q, .create m password params hasPassphrase), .keystore (.ok ks))
        ∈ trace (Machine.exec P) S front

section Opened

variable {P : Primitives} {s : Client}

theorem exists_wallet_of_done {j : ℕ} {password : PyStr}
    (h : (s.exec P (.unlock j password)).1.toVault = .done) :
    ∃ wallet, (s.exec P (.unlock j password)).1 = .wallet (.ok wallet) := by
  cases hget : s.contexts[j]? with
  | none =>
    rw [Client.exec_unlock_of_none hget] at h
    cases h
  | some ctx =>
    rw [Client.exec_unlock_of_some hget] at h ⊢
    cases hout : Effect.outcome (ctx.unlock P password) s.world with
    | error x =>
      rw [hout] at h
      cases h
    | ok wallet => exact ⟨wallet, rfl⟩

theorem exists_keystore_of_done {m : Mnemonic} {password : PyStr} {params : Argon2Params}
    {hasPassphrase : Bool}
    (h : (s.exec P (.create m password params hasPassphrase)).1.toVault = .done) :
    ∃ ks, (s.exec P (.create m password params hasPassphrase)).1 = .keystore (.ok ks) := by
  cases hout : Effect.outcome (Keystore.create P m password params hasPassphrase) s.world with
  | error x =>
    rw [Client.exec_create_of_error hout] at h
    cases h
  | ok ks => exact ⟨ks, by rw [Client.exec_create_of_ok hout]⟩

variable {π : Type} [DecidableEq π] {S : Machine π} {calls : List (π × Client.Call)}
  {e : SecretBytes}

/-- What was created in the trace of the vaults was created by a client. -/
theorem exists_create_of_created {password : PyStr}
    (h : Vault.Created (S.vaultTrace P calls) ⟨e, password⟩) :
    ∃ q m params hasPassphrase ks, m.entropy = .ok e ∧
      ((q, .create m password params hasPassphrase), .keystore (.ok ks))
        ∈ trace (Machine.exec P) S calls := by
  obtain ⟨q, h⟩ := h
  obtain ⟨⟨⟨q', c⟩, o⟩, hmem, heq⟩ := List.mem_map.mp h
  -- the creation that the vaults have seen is one of the clients
  obtain ⟨hqc, ho⟩ := Prod.ext_iff.mp heq
  obtain ⟨-, hc⟩ := Prod.ext_iff.mp hqc
  obtain ⟨front, back, -, rfl⟩ := (mem_trace_iff (Machine.exec P)).mp hmem
  obtain ⟨m, params, hasPassphrase, rfl, he⟩ := Client.Call.eq_create_of_toVault hc
  obtain ⟨ks, hks⟩ := exists_keystore_of_done ho
  simp only [Processes.exec, hks] at hmem
  -- a safe has a secret, so the mnemonic had an entropy
  cases hentropy : m.entropy with
  | error x =>
    rw [hentropy] at he
    cases he
  | ok e' =>
    rw [hentropy] at he
    obtain rfl : e' = e := Option.some.inj he
    exact ⟨q', m, params, hasPassphrase, ks, hentropy, hmem⟩

theorem opened_of_unlocked {p : π} (h : Vault.Unlocked (S.vaultTrace P calls) p e) :
    S.Opened P calls p e := by
  obtain ⟨front', j, password, back', htrace, hcreated⟩ := h
  -- the two traces are cut at the same place
  obtain ⟨l₁, l₂, hsplit, rfl, hl₂⟩ := List.map_eq_append_iff.mp htrace
  obtain ⟨⟨⟨p', c⟩, o⟩, l₃, rfl, heq, -⟩ := List.map_eq_cons_iff.mp hl₂
  obtain ⟨hpc, ho⟩ := Prod.ext_iff.mp heq
  obtain ⟨hp, hc⟩ := Prod.ext_iff.mp hpc
  obtain rfl : p' = p := hp
  obtain ⟨front, back, rfl, rfl, rfl⟩ := split_of_trace_eq _ hsplit
  obtain rfl := Client.Call.eq_unlock_of_toVault hc
  obtain ⟨wallet, hwallet⟩ := exists_wallet_of_done ho
  exact ⟨front, j, password, back, wallet, rfl, hwallet, exists_create_of_created hcreated⟩

/-- Each object of a client stands for one of the vault. -/
theorem exists_mem_of_forall₂ {α β : Type*} {R : α → β → Prop} {l : List α} {l' : List β} {a : α}
    (h : List.Forall₂ R l l') (ha : a ∈ l) : ∃ b ∈ l', R a b := by
  induction h with
  | nil => cases ha
  | @cons a' b' l l' hab _ ih =>
    rcases List.mem_cons.mp ha with rfl | ha
    · exact ⟨b', List.mem_cons_self, hab⟩
    · obtain ⟨b, hb, hR⟩ := ih ha
      exact ⟨b, List.mem_cons_of_mem b' hb, hR⟩

/-- What is locked has 16 bytes of salt, so a vault knows where it comes from. -/
theorem Client.Locked.not_foreign {tried : PyStr → Prop} {c : Client.Call} (h : s.Locked P tried c)
    (hown : ∀ blob, c ≠ .context blob) : ¬ c.toVault.Foreign := by
  -- unknown origins come from other salts and from blobs that are brought along
  cases c with
  | create m password params hasPassphrase =>
    rw [Client.Call.toVault_create_of_eq h.1]
    exact id
  | context blob => exact absurd rfl (hown blob)
  | _ => exact id

theorem not_foreign_vaultTrace {tried : PyStr → Prop}
    (hlocked : Throughout (Machine.exec P) (fun S c => (S c.1).Locked P tried c.2) S calls)
    (hown : ∀ q blob, (q, .context blob) ∉ calls) :
    ∀ e ∈ S.vaultTrace P calls, ¬ e.1.2.Foreign := by
  intro e he
  obtain ⟨⟨q, c⟩, hc, -, hce⟩ := exists_of_mem_vaultTrace he
  rw [← hce]
  refine hlocked.forall_mem _ (p := fun c : π × Client.Call =>
    (∀ blob, c.2 ≠ .context blob) → ¬ c.2.toVault.Foreign) (fun _ _ h => h.not_foreign) _ hc ?_
  rintro blob rfl
  exact hown q blob hc

/-- The passwords of the vaults are those of the clients. -/
theorem tries_of_vaultTrace {e : (π × Client.VaultCall) × Vault.Answer Bytes Bytes}
    (he : e ∈ S.vaultTrace P calls) {i : ℕ} {password : PyStr}
    (hunlock : e.1.2 = .unlock i password) : Machine.Tries calls password := by
  obtain ⟨⟨p, c⟩, hc, -, hce⟩ := exists_of_mem_vaultTrace he
  obtain rfl := Client.Call.eq_unlock_of_toVault (hce.trans hunlock)
  exact ⟨p, i, hc⟩

end Opened

/-- **No secret without its password.** Start with no files, load no foreign blobs, break off no
write, and let what is sealed be locked as far as the passwords go that are tried in the run. Then
every wallet of every process holds an entropy that was created on this machine and that the process
unlocked with its password, and every account is derived from such an entropy. -/
theorem needs_password {P : Primitives} {π : Type} [DecidableEq π] {w : π → World} {S₀ : Machine π}
    (hS₀ : S₀ = .start (fun _ => none) w) (hwhole : ∀ q, (w q).disk.Whole)
    {calls : List (π × Client.Call)}
    (hlocked : Throughout (Machine.exec P)
      (fun S c => (S c.1).Locked P (Machine.Tries calls) c.2) S₀ calls)
    (hown : ∀ q blob, (q, .context blob) ∉ calls) (p : π) {s : Client}
    (hs : s = final (Machine.exec P) S₀ calls p) :
    (∀ wallet ∈ s.session.wallets, ∃ e, S₀.Opened P calls p e ∧
      (wallet.cells s.world = (e, false) ∨ wallet.cells s.world = (e.zeroize, true)) ∧
      wallet.mnemonic = KeystoreContext.reconstruct P e [128, 160, 192, 224, 256]) ∧
    ∀ account ∈ s.accounts, ∃ e path scheme, S₀.Opened P calls p e ∧
      Wallet.accountOf P e path scheme = .ok account := by
  subst hS₀ hs
  -- vaults that confuse no passwords that are tried, and where every save is done or not
  obtain ⟨V, hruns, hV⟩ := runs_of_simulates
    (L := ⟨fun _ q => ¬ Machine.Tries calls q, True, False⟩) (S := .start (fun _ => none) w)
    (fun q => simulates_start (absurd trivial) fun _ => hwhole q)
    (Throughout.imp _ (fun _ _ => secures_of_locked) hlocked)
  -- without files every vault is empty at first
  change Vault.Runs _ _
    (fun q => .empty fun path => ((w q).disk.locate path).toOption) _ V at hruns
  have hsourced := Vault.sourced hruns
    (fun e he i q hunlock _ huntried => absurd (tries_of_vaultTrace he hunlock) huntried) id
    (not_foreign_vaultTrace hlocked hown) p
  refine ⟨fun wallet hwallet => ?_, fun account haccount => ?_⟩
  -- a wallet stands for one of its vault, which is sourced
  · obtain ⟨a, ha, hholds⟩ := exists_mem_of_forall₂ (hV p).wallets hwallet
    refine ⟨a.secret, opened_of_unlocked (hsourced.wallets a ha), ?_, hholds.mnemonic_eq⟩
    have hcells := hholds.cells_eq
    cases hclosed : a.closed with
    | true => exact .inr (by rwa [hclosed] at hcells)
    | false => exact .inl (by rwa [hclosed] at hcells)
  · obtain ⟨a, ha, hreaches⟩ := exists_mem_of_forall₂ (hV p).accounts haccount
    exact ⟨a.secret, a.key.1, a.key.2, opened_of_unlocked (hsourced.handles a ha), hreaches⟩

/-- Under its one key `locked` decrypts as `toy` does. -/
theorem Primitives.locked_decrypt (nonce ciphertext aad : Bytes) :
    locked.aesGcmDecrypt (List.replicate 32 1) nonce ciphertext aad
      = toy.aesGcmDecrypt (List.replicate 32 1) nonce ciphertext aad := by
  change (if List.replicate 32 (1 : UInt8) = List.replicate 32 1
    then toy.aesGcmDecrypt (List.replicate 32 1) nonce ciphertext aad else .error "InvalidTag") = _
  rw [if_pos rfl]

/-- What is sealed with this salt opens. -/
theorem opens_of_salt {e : SecretBytes} {ts : ℤ}
    (sealing : Envelope.Sealing Primitives.locked e pwWrapper interactiveProfile false ts)
    (hsalt : sealing.salt = List.replicate 16 0) : sealing.Opens := by
  unfold Envelope.Sealing.Opens
  rw [key_of_salt sealing hsalt, Primitives.locked_decrypt]
  have hopens := Primitives.toy_undoes sealing.key.buf sealing.nonce sealing.plaintext [1, 1]
  rwa [key_of_salt sealing hsalt] at hopens

/-- What is sealed on a machine whose random bytes are zeros is locked. -/
theorem locked_create (tried : PyStr → Prop) (m : Mnemonic) :
    (Client.start zeroWorld).Locked Primitives.locked tried
      (.create m pwPassword interactiveProfile false) := by
  -- all that matters of the sealing is its salt
  refine ⟨rfl, fun pw e hpw he sealing hsalt _ => ?_⟩
  obtain rfl := encodes_pw.unique hpw
  exact ⟨opens_of_salt sealing hsalt, (locks_of_salt sealing hsalt).locksOut⟩

theorem locked_sessionCalls : Throughout (Machine.exec Primitives.locked)
    (fun S c => (S c.1).Locked Primitives.locked (Machine.Tries sessionCalls) c.2) zeroMachine
      sessionCalls :=
  ⟨locked_create _ ⟨zeroPhrase⟩, trivial, trivial, trivial, trivial, trivial, trivial, trivial⟩

/-- An unlocked wallet derives what its seed leads to. -/
theorem outcome_deriveAccount_unlocked (P : Primitives) (w : World) (pw : SecretBytes)
    (call : Argon2Call) (e : SecretBytes) (path : DerivationPath) (scheme : PyStr) :
    Effect.outcome ((unlockedWallet P w e).deriveAccount P path scheme) (unlockedWorld w pw call e)
      = Wallet.accountOf P e path scheme := by
  rw [Wallet.outcome_deriveAccount, read_unlockedWorld_closed, read_unlockedWorld_seed]
  rfl

theorem exists_account_zeroSeed : ∃ account, Wallet.accountOf Primitives.locked Wallet.zeroSeed
    bitcoinPath schnorrScheme = .ok account := by
  have hderives : (Wallet.accountOf Primitives.locked Wallet.zeroSeed bitcoinPath
      schnorrScheme).isOk = true := by
    decide +kernel
  exact Effect.isOk_iff.mp hderives

/-- A client unlocks its one context, derives an account, closes the wallet and signs: it holds this
wallet and this account then. -/
theorem Client.final_session {P : Primitives} {s : Client} (ctx : KeystoreContext)
    (hcontexts : s.contexts = [ctx]) (hwallets : s.session.wallets = [])
    (haccounts : s.accounts = []) {password : PyStr} {pw : SecretBytes} {u : UnpackedKeystore}
    (hpw : Encodes password pw)
    (hu : Envelope.Unpacks P ctx.blob pw u) {path : DerivationPath} {scheme : PyStr}
    {account : Account} (haccount : Wallet.accountOf P u.seed path scheme = .ok account)
    {message : Bytes} {s' : Client} (hs' : s' = final (Client.exec P) s
      [.unlock 0 password, .derive 0 path scheme, .close 0, .accountSign 0 message]) :
    s'.session.wallets = [unlockedWallet P s.world u.seed] ∧ s'.accounts = [account] := by
  -- each call is run in the state that the one before it has left
  have hcontext : s.contexts[0]? = some ctx := by rw [hcontexts]; rfl
  have hrun := KeystoreContext.run_unlock_eq_ok_iff.mpr
    ⟨pw, u, hpw, hu, rfl, (rfl : unlockedWorld s.world pw _ _ = _)⟩
  have hunlock := Client.exec_unlock_of_some (P := P) hcontext password
  rw [Session.exec_unlock_of_ok (Effect.outcome_of_ok hrun), Effect.after_of_ok hrun, hwallets,
    haccounts] at hunlock
  have hderive := outcome_deriveAccount_unlocked P s.world pw (Envelope.headerCall ctx.blob pw)
    u.seed path scheme
  rw [haccount] at hderive
  simp only [final_cons, final_nil, hunlock] at hs'
  rw [exec_derive_of_ok (by rfl) hderive, exec_close_of_some (by rfl),
    exec_accountSign_of_some (by rfl)] at hs'
  subst hs'
  exact ⟨rfl, rfl⟩

/-- The second process holds a wallet and an account in the end. -/
theorem sessionCalls_holds {s : Client}
    (hs : s = final (Machine.exec Primitives.locked) zeroMachine sessionCalls true) :
    ∃ wallet account, s.session.wallets = [wallet] ∧ s.accounts = [account] := by
  obtain ⟨ks, w, hrun, -⟩ := exists_create_locked
  -- the keystore opens under its password
  obtain ⟨-, pw, e, hpw, he, sealing, hsalt, -, hks⟩ := Keystore.sealing_of_run_create hrun
  obtain rfl := encodes_pw.unique hpw
  obtain rfl : Wallet.zeroSeed = e := Except.ok.inj (zeroPhrase_entropy.symm.trans he)
  have hunpacks := sealing.unpacks rfl (opens_of_salt sealing hsalt)
  rw [show sealing.blob = ks.blob by rw [hks]] at hunpacks
  obtain ⟨account, haccount⟩ := exists_account_zeroSeed
  -- creating has not touched the file system
  have hdisk : w.disk = .blank := (congrArg World.disk (Effect.after_of_ok hrun)).symm.trans
    ((diskRules Primitives.locked).create ⟨zeroPhrase⟩ pwPassword interactiveProfile false
      zeroWorld)
  obtain ⟨random, clock, kdfCalls, secrets, flags, disk⟩ := w
  obtain rfl : disk = .blank := hdisk
  have hcreate := final_create_zeroMachine hrun
  simp only [final_cons, final_nil] at hcreate
  simp only [sessionCalls, final_cons, final_nil, Processes.exec_self, hcreate] at hs
  exact ⟨_, account, Client.final_session ⟨ks.blob⟩ rfl rfl rfl encodes_pw hunpacks haccount hs⟩

theorem needs_password_sessionCalls :
    ∃ s, s = final (Machine.exec Primitives.locked) zeroMachine sessionCalls true ∧
      s.session.wallets ≠ [] ∧ s.accounts ≠ [] ∧
    (∀ wallet ∈ s.session.wallets, ∃ e, zeroMachine.Opened Primitives.locked sessionCalls true e ∧
      (wallet.cells s.world = (e, false) ∨ wallet.cells s.world = (e.zeroize, true)) ∧
      wallet.mnemonic = KeystoreContext.reconstruct Primitives.locked e [128, 160, 192, 224, 256]) ∧
    ∀ account ∈ s.accounts, ∃ e path scheme,
      zeroMachine.Opened Primitives.locked sessionCalls true e ∧
        Wallet.accountOf Primitives.locked e path scheme = .ok account := by
  obtain ⟨wallet, account, hwallets, haccounts⟩ := sessionCalls_holds rfl
  refine ⟨_, rfl, ?_, ?_, needs_password (w := fun _ => zeroWorld) rfl
    (fun _ => Disk.Reliable.whole fun _ => rfl) locked_sessionCalls (by simp [sessionCalls]) true
    rfl⟩
  · rw [hwallets]
    exact List.cons_ne_nil _ _
  · rw [haccounts]
    exact List.cons_ne_nil _ _

end KeystoneCrypto
