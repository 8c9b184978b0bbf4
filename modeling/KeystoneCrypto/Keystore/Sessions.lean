import KeystoneCrypto.Keystore.Erasure
import KeystoneCrypto.Keystore.Root
import KeystoneCrypto.Keystore.Signing

/-!
# Several wallets

A keystore may be unlocked any number of times, and the wallets may be used and closed in any order.
Each wallet refers to a seed buffer and a flag of its own. Unlocking takes fresh cells and leaves
the others alone, closing writes to the two cells of its wallet, and deriving and signing write to
no cell. So in every session the cells of a wallet depend on what was stored and on whether this
wallet was closed (`cells_run`), and what the wallet returns depends on its cells
(`wallet_in_session`).

The invariant of a session is `Separate`: the wallets refer to cells that were handed out, no two to
the same one. Each call keeps it (`Separate.exec`), since unlocking takes the next cells and nothing
else takes any. Under it a call writes to the cells of a wallet only if it closes this wallet
(`Separate.cells_exec`, by cases of the call); the run follows by induction from its last call. That
the cells decide what a wallet answers is `behavesAs_of_cells`, which knows nothing of runs.
-/

namespace KeystoneCrypto

/-! ### What signing depends on -/

/-- `sign(message)`, given the bytes that a Schnorr signature draws. -/
def Signer.signWith (P : Primitives) (aux message : Bytes) :
    Signer → Except PyExc Signature
  | .secp256k sk => do
    let (r, s) ← derToRs (P.ecdsaSign sk (P.sha256 message))
    return ⟨ecdsaScheme, r ++ s, P.compressedPublicKey sk⟩
  | .secp256kSchnorr sk =>
    .ok ⟨schnorrScheme, P.schnorrSign sk (P.sha256 message) aux, (P.compressedPublicKey sk).drop 1⟩
  | .ed25519 sk => .ok ⟨ed25519Scheme, P.ed25519Sign sk message, P.ed25519PublicKey sk⟩

theorem Signer.outcome_sign (P : Primitives) (signer : Signer) (message : Bytes) (w : World) :
    Effect.outcome (signer.sign P message) w = signer.signWith P (w.random.take 32) message := by
  cases signer with
  -- only the DER parsing may raise here
  | secp256k sk =>
    unfold sign signRaw signWith Effect.outcome
    simp only [EStateM.run_bind, Effect.run_liftM]
    cases derToRs (P.ecdsaSign sk (P.sha256 message)) <;> rfl
  | secp256kSchnorr sk =>
    unfold sign signRaw signWith Effect.outcome
    simp only [EStateM.run_bind, run_tokenBytes w (by decide : (0 : ℤ) ≤ 32)]
    rfl
  | ed25519 sk => rfl

namespace Wallet

/-- What a closed wallet answers. -/
def closedError {α : Type} : Except PyExc α := .error ⟨.runtimeError, [.lit "wallet is closed"]⟩

/-- The signature an open wallet with this seed makes. -/
def signatureOf (P : Primitives) (seed : SecretBytes) (path : DerivationPath) (aux message : Bytes)
    (scheme : PyStr) : Except PyExc Signature := do
  let account ← accountOf P seed path scheme
  account.signer.signWith P aux message

section Outcome

variable {P : Primitives} {wallet : Wallet} {path : DerivationPath} {message : Bytes}
  {scheme : PyStr} {seed : SecretBytes}

theorem outcome_deriveAccount (w : World) :
    Effect.outcome (wallet.deriveAccount P path scheme) w
      = if w.flags.read wallet.closed = true then closedError
        else accountOf P (w.secrets.read wallet.seed) path scheme := by
  unfold Effect.outcome
  rw [run_deriveAccount]
  cases w.flags.read wallet.closed with
  | true => rfl
  | false =>
    rw [if_neg Bool.false_ne_true, if_neg Bool.false_ne_true]
    cases accountOf P (w.secrets.read wallet.seed) path scheme <;> rfl

theorem outcome_signMessage (w : World) :
    Effect.outcome (wallet.signMessage P path message scheme) w
      = if w.flags.read wallet.closed = true then closedError
        else signatureOf P (w.secrets.read wallet.seed) path (w.random.take 32) message scheme := by
  -- the flag is looked at twice, here and by `derive_account`, with the same answer
  have hcheck : wallet.checkOpen.run w = _ := run_checkOpen w
  by_cases hclosed : w.flags.read wallet.closed = true
  · rw [if_pos hclosed] at hcheck ⊢
    exact Effect.outcome_of_error (Effect.run_bind_of_error hcheck)
  · rw [if_neg hclosed] at hcheck ⊢
    have hderive : (wallet.deriveAccount P path scheme).run w = _ := run_deriveAccount w
    rw [if_neg hclosed] at hderive
    unfold signatureOf
    cases haccount : accountOf P (w.secrets.read wallet.seed) path scheme with
    | error e =>
      rw [haccount] at hderive
      exact Effect.outcome_of_error
        ((Effect.run_bind_of_ok hcheck).trans (Effect.run_bind_of_error hderive))
    | ok account =>
      rw [haccount] at hderive
      rw [Effect.ok_bind, ← Signer.outcome_sign]
      -- the account's signer draws from the world that deriving has left untouched
      unfold Effect.outcome signMessage
      rw [Effect.run_bind_of_ok hcheck, Effect.run_bind_of_ok hderive]

/-- Only a Schnorr signature depends on random bytes. -/
theorem signatureOf_eq (h : scheme ≠ schnorrScheme) (aux aux' : Bytes) :
    signatureOf P seed path aux message scheme = signatureOf P seed path aux' message scheme := by
  unfold signatureOf
  cases haccount : accountOf P seed path scheme with
  | error e => rfl
  -- the account has the signer of its scheme, and only one of the three draws bytes
  | ok account =>
    have hscheme := (account_of_accountOf haccount).2.1
    rw [Effect.ok_bind, Effect.ok_bind]
    cases hsigner : account.signer with
    | secp256k sk => rfl
    | secp256kSchnorr sk =>
      rw [hsigner] at hscheme
      exact absurd hscheme.symm h
    | ed25519 sk => rfl

end Outcome

end Wallet

/-! ### Unlocking takes fresh cells -/

/-- More cells may have been handed out; those that were hold what they held. -/
structure World.Extends (w w' : World) : Prop where
  secrets_next : w.secrets.next ≤ w'.secrets.next
  flags_next : w.flags.next ≤ w'.flags.next
  secrets_read : ∀ r < w.secrets.next, w'.secrets.read r = w.secrets.read r
  flags_read : ∀ r < w.flags.next, w'.flags.read r = w.flags.read r

theorem World.Extends.of_eq {w w' : World} (hsecrets : w'.secrets = w.secrets)
    (hflags : w'.flags = w.flags) : w.Extends w' where
  secrets_next := by rw [hsecrets]
  flags_next := by rw [hflags]
  secrets_read := by
    intro r _
    rw [hsecrets]
  flags_read := by
    intro r _
    rw [hflags]

theorem World.Extends.of_alloc {w w' : World} {pw : SecretBytes}
    (hsecrets : w'.secrets = w.secrets.alloc pw) (hflags : w'.flags = w.flags) : w.Extends w' where
  secrets_next := by rw [hsecrets, Store.next_alloc]; exact Nat.le_succ _
  flags_next := by rw [hflags]
  secrets_read := by
    intro r hr
    rw [hsecrets, Store.read_alloc_of_lt _ _ hr]
  flags_read := by
    intro r _
    rw [hflags]

theorem World.Extends.trans {w w₁ w₂ : World} (h : w.Extends w₁) (h' : w₁.Extends w₂) :
    w.Extends w₂ where
  secrets_next := h.secrets_next.trans h'.secrets_next
  flags_next := h.flags_next.trans h'.flags_next
  secrets_read := fun r hr =>
    (h'.secrets_read r (hr.trans_le h.secrets_next)).trans (h.secrets_read r hr)
  flags_read := fun r hr =>
    (h'.flags_read r (hr.trans_le h.flags_next)).trans (h.flags_read r hr)

section Wrapped

variable {α β : Type} {body : ℕ → Py α} {rest : α → Py β}

/-- Overwriting the wrapper leaves the cells in use alone. -/
theorem extends_overwritten {w w' : World} (pw : SecretBytes) (hflags : w'.flags = w.flags) :
    w.Extends { w' with secrets := (w.secrets.alloc pw).write pw.zeroize w.secrets.next } where
  secrets_next := Nat.le_succ _
  flags_next := by rw [hflags]
  secrets_read := by
    intro r hr
    -- the wrapper lies behind the mark
    exact (Store.read_write_of_ne _ _ hr.ne).trans (Store.read_alloc_of_lt _ _ hr)
  flags_read := by
    intro r _
    rw [hflags]

/-- **A call with a wrapper** leaves the cells in use alone, whether it returns or raises, if the
work touches no cell and the rest leaves those in use alone. -/
theorem extends_withPassword (password : PyStr)
    (hsecrets : ∀ r, Effect.Keeps World.secrets (body r))
    (hflags : ∀ r, Effect.Keeps World.flags (body r))
    (hrest : ∀ a w, World.Extends w (Effect.after (rest a) w)) (w : World) :
    w.Extends (Effect.after (withPassword password body rest) w) := by
  -- a password that cannot be wrapped changes nothing
  by_cases h : ∃ pw, Encodes password pw
  swap
  · obtain ⟨e, he⟩ :
        ∃ e, (withPassword password body rest).run w = .error e w :=
      run_withPassword_of_not_encodes h w
    rw [Effect.after_of_error he]
    exact .of_eq rfl rfl
  obtain ⟨pw, hpw⟩ := h
  -- the work writes to no cell, so only the wrapper and the rest are left
  have hflags' : (Effect.after (body w.secrets.next) (w.wrap pw)).flags = w.flags := hflags _ _
  have hsecrets' : (Effect.after (body w.secrets.next) (w.wrap pw)).secrets = w.secrets.alloc pw :=
    hsecrets _ _
  rw [withPassword_of_encodes hpw]
  cases hrun : (body w.secrets.next).run (w.wrap pw) with
  | ok a w₁ =>
    rw [Effect.after_of_ok hrun] at hflags'
    have hext := (extends_overwritten pw hflags').trans (hrest a _)
    unfold Effect.after at hext ⊢
    rw [run_wrapped_of_ok hsecrets hrun]
    exact hext
  | error e w₁ =>
    rw [Effect.after_of_error hrun] at hflags' hsecrets'
    rw [Effect.after_of_error (run_wrapped_of_error hrun)]
    exact .of_alloc hsecrets' hflags'

end Wrapped

section Unlock

variable (P : Primitives) (ctx : KeystoreContext) (password : PyStr)

theorem extends_newWallet (u : UnpackedKeystore) (w : World) :
    w.Extends (Effect.after (newWallet P u) w) where
  secrets_next := Nat.le_succ _
  flags_next := Nat.le_succ _
  secrets_read := fun _ hr => Store.read_alloc_of_lt _ _ hr
  flags_read := fun _ hr => Store.read_alloc_of_lt _ _ hr

/-- **Unlocking** leaves the cells in use alone, whether it returns or raises. -/
theorem extends_unlock (w : World) : w.Extends (Effect.after (ctx.unlock P password) w) := by
  rw [ctx.unlock_eq]
  exact extends_withPassword password (keeps_unpackWrapped P ctx.blob)
    (fun _ => .bind (fun _ => rfl) fun pw => (inert_flags.rules P).unpack ctx.blob pw)
    (extends_newWallet P) w

end Unlock

/-! ### Sessions -/

/-- The world, and the wallets unlocked from one keystore so far. -/
structure Session where
  world : World
  wallets : List Wallet

namespace Session

/-- The calls of a session. Wallets are numbered in the order of their unlocking. -/
inductive Call
  | unlock (password : PyStr)
  | derive (i : ℕ) (path : DerivationPath) (scheme : PyStr)
  | sign (i : ℕ) (path : DerivationPath) (message : Bytes) (scheme : PyStr)
  | close (i : ℕ)
  deriving DecidableEq

/-- What a call returns or raises. -/
inductive Answer
  | wallet (r : Except PyExc Wallet)
  | account (r : Except PyExc Account)
  | signature (r : Except PyExc Signature)
  | done (r : Except PyExc Unit)
  /-- There is no wallet of this number. -/
  | absent

section Exec

variable (P : Primitives) (ctx : KeystoreContext)

/-- The session after a method of the wallet `i` ran. -/
def execOn {α : Type} (s : Session) (i : ℕ) (x : Wallet → Py α) : Session :=
  match s.wallets[i]? with
  | some wallet => { s with world := Effect.after (x wallet) s.world }
  | none => s

/-- What a method of the wallet `i` returns or raises. -/
def answerOn {α : Type} (s : Session) (i : ℕ) (x : Wallet → Py α)
    (answer : Except PyExc α → Answer) : Answer :=
  match s.wallets[i]? with
  | some wallet => answer (Effect.outcome (x wallet) s.world)
  | none => .absent

/-- The session after a call, whether it returned or raised. -/
def exec (s : Session) : Call → Session
  | .unlock password =>
    { world := Effect.after (ctx.unlock P password) s.world
      -- a call that raises adds no wallet
      wallets := s.wallets ++ (Effect.outcome (ctx.unlock P password) s.world).toOption.toList }
  | .derive i path scheme => s.execOn i fun wallet => wallet.deriveAccount P path scheme
  | .sign i path message scheme => s.execOn i fun wallet => wallet.signMessage P path message scheme
  | .close i => s.execOn i Wallet.close

/-- The answer to a call. -/
def answer (s : Session) : Call → Answer
  | .unlock password => .wallet (Effect.outcome (ctx.unlock P password) s.world)
  | .derive i path scheme =>
    s.answerOn i (fun wallet => wallet.deriveAccount P path scheme) .account
  | .sign i path message scheme =>
    s.answerOn i (fun wallet => wallet.signMessage P path message scheme) .signature
  | .close i => s.answerOn i Wallet.close .done

/-- The session after a sequence of calls. -/
def run (s : Session) (calls : List Call) : Session := calls.foldl (exec P ctx) s

theorem run_append (s : Session) (calls calls' : List Call) :
    s.run P ctx (calls ++ calls') = (s.run P ctx calls).run P ctx calls' := List.foldl_append

theorem run_concat (s : Session) (calls : List Call) (c : Call) :
    s.run P ctx (calls ++ [c]) = (s.run P ctx calls).exec P ctx c := run_append P ctx s calls [c]

end Exec

/-- The wallets refer to cells in use, and no two to the same one. -/
structure Separate (s : Session) : Prop where
  seed_lt : ∀ wallet ∈ s.wallets, wallet.seed < s.world.secrets.next
  closed_lt : ∀ wallet ∈ s.wallets, wallet.closed < s.world.flags.next
  seed_nodup : (s.wallets.map Wallet.seed).Nodup
  closed_nodup : (s.wallets.map Wallet.closed).Nodup

section Step

variable {P : Primitives} {ctx : KeystoreContext} {s : Session} {wallet : Wallet} {i : ℕ}

theorem wallets_execOn {α : Type} (s : Session) (i : ℕ) (x : Wallet → Py α) :
    (s.execOn i x).wallets = s.wallets := by
  unfold execOn
  cases s.wallets[i]? <;> rfl

/-- A method that keeps a part of the world keeps it in the session. -/
theorem part_execOn {α τ : Type} {part : World → τ} {x : Wallet → Py α}
    (hx : ∀ wallet, Effect.Keeps part (x wallet)) (s : Session) (i : ℕ) :
    part (s.execOn i x).world = part s.world := by
  unfold execOn
  cases s.wallets[i]? with
  | none => rfl
  | some wallet => exact hx wallet s.world

theorem execOn_of_some {α : Type} {x : Wallet → Py α} (h : s.wallets[i]? = some wallet) :
    s.execOn i x = { s with world := Effect.after (x wallet) s.world } := by
  unfold execOn
  rw [h]

/-- Deriving keeps every part, signing every part without the random bytes. -/
theorem keeps_deriveAccount {τ : Type} (part : World → τ) (path : DerivationPath)
    (scheme : PyStr) (wallet : Wallet) :
    Effect.Keeps part (wallet.deriveAccount P path scheme) := by
  intro w
  rw [Wallet.after_deriveAccount]

/-- A wallet keeps its number. -/
theorem getElem?_exec (h : s.wallets[i]? = some wallet) (c : Call) :
    (s.exec P ctx c).wallets[i]? = some wallet := by
  cases c with
  | unlock password =>
    -- a new wallet comes after those that are there
    exact (List.getElem?_append_left (List.getElem?_eq_some_iff.mp h).1).trans h
  | derive j path scheme => exact (congrArg (·[i]?) (wallets_execOn s j _)).trans h
  | sign j path message scheme => exact (congrArg (·[i]?) (wallets_execOn s j _)).trans h
  | close j => exact (congrArg (·[i]?) (wallets_execOn s j _)).trans h

theorem Separate.of_next {w : World} (h : s.Separate)
    (hsecrets : s.world.secrets.next ≤ w.secrets.next)
    (hflags : s.world.flags.next ≤ w.flags.next) :
    Separate { s with world := w } where
  seed_lt wallet hw := lt_of_lt_of_le (h.seed_lt wallet hw) hsecrets
  closed_lt wallet hw := lt_of_lt_of_le (h.closed_lt wallet hw) hflags
  seed_nodup := h.seed_nodup
  closed_nodup := h.closed_nodup

/-- Different numbers, different cells. -/
theorem Separate.ne (h : s.Separate) {other : Wallet} {j : ℕ} (hij : i ≠ j)
    (hi : s.wallets[i]? = some wallet) (hj : s.wallets[j]? = some other) :
    wallet.seed ≠ other.seed ∧ wallet.closed ≠ other.closed := by
  have hlt := (List.getElem?_eq_some_iff.mp hi).1
  refine ⟨fun heq => hij ?_, fun heq => hij ?_⟩
  -- the lists of cells have no duplicates, so equal cells would have equal numbers
  · refine (List.getElem?_inj (by rwa [List.length_map]) h.seed_nodup).mp ?_
    rw [List.getElem?_map, List.getElem?_map, hi, hj, Option.map_some, Option.map_some, heq]
  · refine (List.getElem?_inj (by rwa [List.length_map]) h.closed_nodup).mp ?_
    rw [List.getElem?_map, List.getElem?_map, hi, hj, Option.map_some, Option.map_some, heq]

/-- **One call.** It writes to the cells of a wallet only if it closes this wallet. -/
theorem Separate.cells_exec (h : s.Separate) (hi : s.wallets[i]? = some wallet) (c : Call) :
    wallet.cells (s.exec P ctx c).world
      = if c = .close i then ((s.world.secrets.read wallet.seed).zeroize, true)
        else wallet.cells s.world := by
  cases c with
  | unlock password =>
    rw [if_neg Call.noConfusion]
    -- the new cells lie behind the marks, the cells of this wallet before them
    have hext := extends_unlock P ctx password s.world
    have hmem := List.mem_of_getElem? hi
    exact Prod.ext (hext.secrets_read _ (h.seed_lt wallet hmem))
      (hext.flags_read _ (h.closed_lt wallet hmem))
  | derive j path scheme =>
    rw [if_neg Call.noConfusion]
    exact part_execOn (keeps_deriveAccount wallet.cells path scheme) s j
  | sign j path message scheme =>
    rw [if_neg Call.noConfusion]
    exact part_execOn (fun other => other.keeps_signMessage wallet.cells_randomFree message) s j
  | close j =>
    by_cases hij : i = j
    · subst hij
      rw [if_pos rfl]
      change wallet.cells (s.execOn i Wallet.close).world = _
      rw [execOn_of_some hi]
      exact wallet.cells_close s.world
    · rw [if_neg fun hc => hij (Call.close.inj hc).symm]
      change wallet.cells (s.execOn j Wallet.close).world = _
      cases hj : s.wallets[j]? with
      | none =>
        unfold execOn
        rw [hj]
      | some other =>
        -- the cells that are written belong to the other wallet
        obtain ⟨hseed, hclosed⟩ := h.ne hij hi hj
        rw [execOn_of_some hj, Effect.after_of_ok (Wallet.run_close s.world)]
        exact Prod.ext (Store.read_write_of_ne _ _ hseed) (Store.read_write_of_ne _ _ hclosed)

/-- How many cells were handed out. -/
def marks (w : World) : ℕ × ℕ := (w.secrets.next, w.flags.next)

theorem Separate.execOn {α : Type} {x : Wallet → Py α} (h : s.Separate)
    (hx : ∀ wallet, Effect.Keeps marks (x wallet)) (i : ℕ) : (s.execOn i x).Separate := by
  unfold Session.execOn
  cases s.wallets[i]? with
  | none => exact h
  | some wallet =>
    obtain ⟨hsecrets, hflags⟩ := Prod.ext_iff.mp (hx wallet s.world)
    exact h.of_next hsecrets.ge hflags.ge

theorem exec_unlock_of_ok {password : PyStr}
    (h : Effect.outcome (ctx.unlock P password) s.world = .ok wallet) :
    s.exec P ctx (.unlock password)
      = ⟨Effect.after (ctx.unlock P password) s.world, s.wallets ++ [wallet]⟩ := by
  simp only [Session.exec, h]
  rfl

theorem exec_unlock_of_error {password : PyStr} {e : PyExc}
    (h : Effect.outcome (ctx.unlock P password) s.world = .error e) :
    s.exec P ctx (.unlock password)
      = ⟨Effect.after (ctx.unlock P password) s.world, s.wallets⟩ := by
  simp only [Session.exec, h]
  exact congrArg (Session.mk _) (List.append_nil _)

/-- A reference behind the mark is a new one. -/
theorem fresh_concat {f : Wallet → ℕ} {l : List Wallet} {n n' : ℕ} (hlt : ∀ x ∈ l, f x < n)
    (hnodup : (l.map f).Nodup) (hn : n ≤ f wallet) (hn' : f wallet < n') :
    (∀ x ∈ l ++ [wallet], f x < n') ∧ ((l ++ [wallet]).map f).Nodup := by
  refine ⟨?_, ?_⟩
  · intro x hx
    rcases List.mem_append.mp hx with hx | hx
    · exact ((hlt x hx).trans_le hn).trans hn'
    · rwa [List.mem_singleton.mp hx]
  · rw [List.map_append, List.map_singleton]
    -- the old references lie before the mark, the new one behind it
    refine List.nodup_append.mpr ⟨hnodup, List.nodup_singleton _, ?_⟩
    intro r hr r' hr'
    obtain ⟨x, hx, rfl⟩ := List.mem_map.mp hr
    rw [List.mem_singleton.mp hr']
    exact ((hlt x hx).trans_le hn).ne

/-- A wallet with cells behind the marks may join. -/
theorem Separate.concat (h : s.Separate) {w : World} (hseed : s.world.secrets.next ≤ wallet.seed)
    (hseed' : wallet.seed < w.secrets.next) (hclosed : s.world.flags.next ≤ wallet.closed)
    (hclosed' : wallet.closed < w.flags.next) : Separate ⟨w, s.wallets ++ [wallet]⟩ := by
  obtain ⟨hseeds, hseeds'⟩ := fresh_concat h.seed_lt h.seed_nodup hseed hseed'
  obtain ⟨hflags, hflags'⟩ := fresh_concat h.closed_lt h.closed_nodup hclosed hclosed'
  exact ⟨hseeds, hflags, hseeds', hflags'⟩

/-- A wallet that is unlocked gets the next cells. -/
theorem Separate.exec_unlock (h : s.Separate) (password : PyStr) :
    (s.exec P ctx (.unlock password)).Separate := by
  cases hout : Effect.outcome (ctx.unlock P password) s.world with
  | error e =>
    have hext := extends_unlock P ctx password s.world
    rw [exec_unlock_of_error hout]
    exact h.of_next hext.secrets_next hext.flags_next
  | ok wallet =>
    rw [exec_unlock_of_ok hout]
    obtain ⟨pw, u, -, -, rfl, hafter⟩ :=
      KeystoreContext.run_unlock_eq_ok_iff.mp (Effect.run_of_outcome hout)
    -- the new cells are the last ones handed out
    rw [hafter]
    exact h.concat (Nat.le_succ _) (Nat.lt_succ_self _) le_rfl (Nat.lt_succ_self _)

theorem Separate.exec (h : s.Separate) (c : Call) : (s.exec P ctx c).Separate := by
  cases c with
  | unlock password => exact h.exec_unlock password
  | derive i path scheme => exact h.execOn (keeps_deriveAccount marks path scheme) i
  | sign i path message scheme =>
    exact h.execOn (fun wallet => wallet.keeps_signMessage (fun _ _ => rfl) message) i
  | close i => exact h.execOn (fun _ _ => rfl) i

theorem Separate.run (h : s.Separate) (calls : List Call) : (s.run P ctx calls).Separate := by
  induction calls generalizing s with
  | nil => exact h
  | cons c calls ih => exact ih (h.exec c)

/-- **A session.** The cells of a wallet are as they were, or erased if one of the calls closed this
wallet. -/
theorem Separate.cells_run (h : s.Separate) (hi : s.wallets[i]? = some wallet)
    (calls : List Call) : (s.run P ctx calls).wallets[i]? = some wallet ∧
      wallet.cells (s.run P ctx calls).world
        = if .close i ∈ calls then ((s.world.secrets.read wallet.seed).zeroize, true)
          else wallet.cells s.world := by
  -- the last call either closes the wallet, or leaves its cells as the calls before have
  induction calls using List.reverseRecOn with
  | nil => exact ⟨hi, rfl⟩
  | append_singleton calls c ih =>
    obtain ⟨hwallet, hcells⟩ := ih
    rw [run_concat]
    refine ⟨getElem?_exec hwallet c, ?_⟩
    rw [(h.run calls).cells_exec hwallet c]
    -- closed by now means closed before, or by this call
    have hmem : .close i ∈ calls ++ [c] ↔ .close i ∈ calls ∨ c = .close i := by
      rw [List.mem_append, List.mem_singleton, @eq_comm _ c]
    by_cases hbefore : .close i ∈ calls
    · -- erasing zeros leaves zeros
      rw [if_pos hbefore] at hcells
      have hseed : (s.run P ctx calls).world.secrets.read wallet.seed
          = (s.world.secrets.read wallet.seed).zeroize := congrArg Prod.fst hcells
      rw [hseed, SecretBytes.zeroize_zeroize, hcells, ite_self, if_pos (hmem.mpr (.inl hbefore))]
    · rw [if_neg hbefore] at hcells
      have hseed : (s.run P ctx calls).world.secrets.read wallet.seed
          = s.world.secrets.read wallet.seed := congrArg Prod.fst hcells
      rw [hseed, hcells]
      simp only [hmem, hbefore, false_or]

/-- The wallet `i` has its buffer and its flag as a wallet with this seed has them, open or closed,
and answers accordingly: while it is open, ECDSA accounts have the key that BIP-32 assigns to the
path from this seed, and afterwards there are none. -/
structure BehavesAs (P : Primitives) (ctx : KeystoreContext) (s : Session) (i : ℕ) (wallet : Wallet)
    (seed : SecretBytes) (closed : Bool) : Prop where
  wallet_eq : s.wallets[i]? = some wallet
  buffer_eq : (s.world.secrets.read wallet.seed).buf
    = if closed then List.replicate seed.buf.length 0 else seed.buf
  flag_eq : s.world.flags.read wallet.closed = closed
  derive_eq : ∀ path scheme, s.answer P ctx (.derive i path scheme)
    = .account (if closed then Wallet.closedError else Wallet.accountOf P seed path scheme)
  sign_eq : ∀ path message scheme, s.answer P ctx (.sign i path message scheme)
    = .signature (if closed then Wallet.closedError
        else Wallet.signatureOf P seed path (s.world.random.take 32) message scheme)
  key_iff : ∀ path pk, (∃ account, s.answer P ctx (.derive i path ecdsaScheme)
      = .account (.ok account) ∧ account.publicKey = pk) ↔ closed = false ∧
    ∃ k, Bip32.keyOf P seed.buf path.indices = some k ∧ P.compressedPublicKey k = pk

theorem answerOn_of_some {α : Type} {x : Wallet → Py α} {answer : Except PyExc α → Answer}
    (h : s.wallets[i]? = some wallet) :
    s.answerOn i x answer = answer (Effect.outcome (x wallet) s.world) := by
  unfold answerOn
  rw [h]

/-- The cells decide the answers. -/
theorem behavesAs_of_cells {seed : SecretBytes} {closed : Bool}
    (hi : s.wallets[i]? = some wallet)
    (hcells : wallet.cells s.world = if closed then (seed.zeroize, true) else (seed, false)) :
    BehavesAs P ctx s i wallet seed closed := by
  obtain ⟨hseed, hflag⟩ := Prod.ext_iff.mp hcells
  change s.world.secrets.read wallet.seed = _ at hseed
  -- the flag says whether the wallet is closed, and the buffer holds its seed or zeros
  change s.world.flags.read wallet.closed = _ at hflag
  cases closed with
  | true =>
    have hderive : ∀ path scheme, s.answer P ctx (.derive i path scheme)
        = .account Wallet.closedError := by
      intro path scheme
      refine (answerOn_of_some hi).trans (congrArg _ ?_)
      rw [Wallet.outcome_deriveAccount, hflag]
      rfl
    refine ⟨hi, ?_, hflag, hderive, fun path message scheme => ?_, fun path pk => ?_⟩
    · rw [hseed]
      exact SecretBytes.zeroize_buf seed
    · refine (answerOn_of_some hi).trans (congrArg _ ?_)
      rw [Wallet.outcome_signMessage, hflag]
      rfl
    · -- a closed wallet raises, whatever the key would be
      refine ⟨?_, ?_⟩
      · rintro ⟨account, haccount, -⟩
        cases (hderive path ecdsaScheme).symm.trans haccount
      · rintro ⟨hopen, -⟩
        cases hopen
  | false =>
    have hderive : ∀ path scheme, s.answer P ctx (.derive i path scheme)
        = .account (Wallet.accountOf P seed path scheme) := by
      intro path scheme
      refine (answerOn_of_some hi).trans (congrArg _ ?_)
      rw [Wallet.outcome_deriveAccount, hflag, hseed]
      rfl
    refine ⟨hi, congrArg _ hseed, hflag, hderive, fun path message scheme => ?_, fun path pk => ?_⟩
    · refine (answerOn_of_some hi).trans (congrArg _ ?_)
      rw [Wallet.outcome_signMessage, hflag, hseed]
      rfl
    · -- the account holds the key at the end of the path from the stored seed
      rw [← rootKey_eq_ok_iff, ← map_accountOf, hderive]
      cases Wallet.accountOf P seed path ecdsaScheme with
      | error x => simp [Except.map]
      | ok account => simp [Except.map]

/-- Two sessions in which the wallet behaves alike have the same answers; a Schnorr signature
depends on the random bytes as well. -/
theorem BehavesAs.answer_eq {s' : Session} {seed : SecretBytes} {closed : Bool}
    (h : BehavesAs P ctx s i wallet seed closed) (h' : BehavesAs P ctx s' i wallet seed closed) :
    (∀ path scheme, s'.answer P ctx (.derive i path scheme)
      = s.answer P ctx (.derive i path scheme)) ∧
    ∀ path message scheme, scheme ≠ schnorrScheme →
      s'.answer P ctx (.sign i path message scheme)
        = s.answer P ctx (.sign i path message scheme) := by
  refine ⟨fun path scheme => ?_, fun path message scheme hscheme => ?_⟩
  · rw [h.derive_eq, h'.derive_eq]
  · rw [h.sign_eq, h'.sign_eq, Wallet.signatureOf_eq hscheme]

/-- Whatever is called from here on, the wallet `i` behaves as one with this seed, closed as soon as
it was closed itself; and no call but its own `close` changes what it answers. -/
def Isolated (P : Primitives) (ctx : KeystoreContext) (s : Session) (i : ℕ) (wallet : Wallet)
    (seed : SecretBytes) : Prop :=
  ∀ calls, BehavesAs P ctx (s.run P ctx calls) i wallet seed (decide (.close i ∈ calls)) ∧
    ∀ c, c ≠ .close i →
      (∀ path scheme, ((s.run P ctx calls).exec P ctx c).answer P ctx (.derive i path scheme)
        = (s.run P ctx calls).answer P ctx (.derive i path scheme)) ∧
      ∀ path message scheme, scheme ≠ schnorrScheme →
        ((s.run P ctx calls).exec P ctx c).answer P ctx (.sign i path message scheme)
          = (s.run P ctx calls).answer P ctx (.sign i path message scheme)

/-- An open wallet with cells of its own is isolated. -/
theorem Separate.isolated (h : s.Separate) {seed : SecretBytes}
    (hi : s.wallets[i]? = some wallet) (hcells : wallet.cells s.world = (seed, false)) :
    Isolated P ctx s i wallet seed := by
  -- the cells are known after any calls, hence the behaviour is
  have hbehaves : ∀ calls, BehavesAs P ctx (s.run P ctx calls) i wallet seed
      (decide (.close i ∈ calls)) := by
    intro calls
    have hrun : (s.run P ctx calls).wallets[i]? = some wallet ∧ _ := h.cells_run hi calls
    obtain ⟨hget, hcells'⟩ := hrun
    refine behavesAs_of_cells hget ?_
    have hseed : s.world.secrets.read wallet.seed = seed := congrArg Prod.fst hcells
    rw [hcells', hcells, hseed]
    simp only [decide_eq_true_eq]
  intro calls
  refine ⟨hbehaves calls, fun c hc => ?_⟩
  have hnext := hbehaves (calls ++ [c])
  -- another call than its own `close` leaves the wallet open or closed, as it was
  have hmem : decide (.close i ∈ calls ++ [c]) = decide (.close i ∈ calls) := by
    refine decide_eq_decide.mpr ?_
    rw [List.mem_append, List.mem_singleton, or_iff_left (Ne.symm hc)]
  rw [hmem, run_concat] at hnext
  exact (hbehaves calls).answer_eq hnext

end Step

/-- Nothing unlocked yet. -/
def start (w : World) : Session := ⟨w, []⟩

theorem separate_start (w : World) : (start w).Separate where
  seed_lt _ hw := absurd hw List.not_mem_nil
  closed_lt _ hw := absurd hw List.not_mem_nil
  seed_nodup := List.nodup_nil
  closed_nodup := List.nodup_nil

/-- **The wallets of one keystore.** In any session, let a call unlock a wallet. The blob holds a
seed under the password of this call, and from there on the wallet is isolated with that seed. -/
theorem wallet_in_session {P : Primitives} {ctx : KeystoreContext} {w : World}
    {front : List Call} {password : PyStr} {wallet : Wallet}
    (h : ((start w).run P ctx front).answer P ctx (.unlock password) = .wallet (.ok wallet)) :
    ∃ pw u, Encodes password pw ∧ Envelope.Unpacks P ctx.blob pw u ∧
      Isolated P ctx ((start w).run P ctx (front ++ [.unlock password]))
        ((start w).run P ctx front).wallets.length wallet u.seed := by
  set s := (start w).run P ctx front with hs
  have hout : Effect.outcome (ctx.unlock P password) s.world = .ok wallet :=
    Answer.wallet.inj h
  obtain ⟨pw, u, hpw, hu, hwallet, hafter⟩ :=
    KeystoreContext.run_unlock_eq_ok_iff.mp (Effect.run_of_outcome hout)
  have hseparate : (s.exec P ctx (.unlock password)).Separate :=
    ((separate_start w).run front).exec (.unlock password)
  refine ⟨pw, u, hpw, hu, ?_⟩
  rw [run_concat]
  -- right after the call the wallet is the last one, open and with the seed that was stored
  refine hseparate.isolated ?_ ?_
  · rw [exec_unlock_of_ok hout]
    exact List.getElem?_concat_length
  · rw [exec_unlock_of_ok hout, hafter, hwallet]
    exact Prod.ext
      (read_unlockedWorld_seed P s.world pw (Envelope.headerCall ctx.blob pw) u.seed)
      (read_unlockedWorld_closed P s.world pw (Envelope.headerCall ctx.blob pw) u.seed)

/-- The bytes from 1 to 16. -/
def storedSeed : SecretBytes := ⟨[1, 2, 3, 4, 5, 6, 7, 8, 9, 10, 11, 12, 13, 14, 15, 16], by decide⟩

/-- What is inside a keystore of them. -/
def storedPlaintext : Bytes := 16 :: storedSeed.buf ++ List.replicate 15 0

/-- The keystore, as `toy` seals it. -/
def storedContext : KeystoreContext where
  blob := magic ++ [1, 1] ++ [0, 0, 0, 1, 0, 0, 0, 8, 0, 0, 0, 1, 0, 0, 0, 32, 0, 0, 0, 0x13]
    ++ List.replicate (12 + 16 + 12) 0 ++ storedPlaintext ++ Primitives.toyTag storedPlaintext

/-- It is unlocked, closed again, and unlocked once more. -/
theorem wallet_in_session_storedContext : ∃ wallet,
    ((start zeroWorld).run Primitives.toy storedContext
        [.unlock (PyStr.ofString "pw"), .close 0]).answer Primitives.toy storedContext
      (.unlock (PyStr.ofString "pw")) = .wallet (.ok wallet) ∧
    ∃ pw u, Encodes (PyStr.ofString "pw") pw ∧
      Envelope.Unpacks Primitives.toy storedContext.blob pw u ∧
      Isolated Primitives.toy storedContext
        ((start zeroWorld).run Primitives.toy storedContext
          ([.unlock (PyStr.ofString "pw"), .close 0] ++ [.unlock (PyStr.ofString "pw")]))
        ((start zeroWorld).run Primitives.toy storedContext
          [.unlock (PyStr.ofString "pw"), .close 0]).wallets.length wallet u.seed := by
  have hunpacks : Envelope.Unpacks Primitives.toy storedContext.blob pwWrapper
      ⟨storedSeed, false, 0⟩ := by
    -- the toy key is 32 zeros, and the tag of the plaintext is in its place
    refine ⟨⟨by decide, by decide, by decide⟩, ⟨List.replicate 32 0, by decide⟩, ?_, ?_⟩
    · decide +kernel
    · decide +kernel
  obtain ⟨wallet, hwallet⟩ : ∃ wallet, ((start zeroWorld).run Primitives.toy storedContext
      [.unlock (PyStr.ofString "pw"), .close 0]).answer Primitives.toy storedContext
      (.unlock (PyStr.ofString "pw")) = .wallet (.ok wallet) :=
    ⟨_, congrArg Answer.wallet (Effect.outcome_of_ok
      (KeystoreContext.run_unlock_eq_ok_iff.mpr ⟨_, _, encodes_pw, hunpacks, rfl, rfl⟩))⟩
  exact ⟨wallet, hwallet, wallet_in_session hwallet⟩

end Session

end KeystoneCrypto
