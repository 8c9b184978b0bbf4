import KeystoneCrypto.Keystore.Refinement

/-!
# What is left in memory

A creation wraps its password in a buffer, an unlocking its password in one and the seed of its
wallet in another. `accounted_run` says what these buffers hold at any moment of a run: zeros, or
the entropy of a wallet that is still open, or the password of a creation or an unlocking that
raised; what a call that returned has left is accounted for by the wallets alone. As in the model
throughout, the garbage collector has not run.

Other secrets are passed by their contents and have no cell: the key that Argon2id derives, the
entropy that `create` reads off the mnemonic and the keys along a derivation are `SecretBytes` too,
which the library does not overwrite.

The proof is an invariant of one call, `Accounted`, which mentions the calls so far: a password may
be left behind because of any of them. Each of `create` and `unlock` ends in one of three ways
(`withPassword_cases`): nothing was allocated, or the wrapper is left behind as it was, or it was
overwritten before the rest ran. The other calls leave the buffers alone, except for `close`, which
blanks the one of its wallet. For all of them `Accounted.of_extends` reduces the invariant to the
cells that are new.
-/

namespace KeystoneCrypto

/-! ### How a call with a wrapper ends -/

section Wrapped

variable {α β : Type} {body : ℕ → Py α} {rest : α → Py β}

/-- Nothing happened, or the password is left in a fresh buffer, or it was overwritten there. -/
theorem withPassword_cases (password : PyStr) (hbody : ∀ r, Effect.Keeps World.secrets (body r))
    (w : World) :
    (∃ e, (withPassword password body rest).run w = .error e w) ∨
    (∃ pw e w', Encodes password pw ∧ (withPassword password body rest).run w = .error e w' ∧
      w'.secrets = w.secrets.alloc pw) ∨
    ∃ (pw : SecretBytes) (a : α) (w' : World),
      (withPassword password body rest).run w = (rest a).run
      { w' with secrets := (w.secrets.alloc pw).write pw.zeroize w.secrets.next } := by
  by_cases h : ∃ pw, Encodes password pw
  · obtain ⟨pw, hpw⟩ := h
    rw [withPassword_of_encodes hpw]
    cases hrun : (body w.secrets.next).run (w.wrap pw) with
    | ok a w' => exact .inr (.inr ⟨pw, a, w', run_wrapped_of_ok hbody hrun⟩)
    | error e w' =>
      -- the work has raised, and has written to no buffer before
      have hkeeps := hbody w.secrets.next (w.wrap pw)
      rw [Effect.after_of_error hrun] at hkeeps
      exact .inr (.inl ⟨pw, e, w', hpw, run_wrapped_of_error hrun, hkeeps⟩)
  · exact .inl (run_withPassword_of_not_encodes h w)

end Wrapped

section Cases

variable (P : Primitives) (w : World)

theorem create_cases (m : Mnemonic) (password : PyStr) (params : Argon2Params)
    (hasPassphrase : Bool) :
    (∃ e, (Keystore.create P m password params hasPassphrase).run w = .error e w) ∨
    (∃ pw e w', Encodes password pw ∧
      (Keystore.create P m password params hasPassphrase).run w = .error e w' ∧
      w'.secrets = w.secrets.alloc pw) ∨
    ∃ pw ks w', (Keystore.create P m password params hasPassphrase).run w = .ok ks w' ∧
      w'.secrets = (w.secrets.alloc pw).write pw.zeroize w.secrets.next := by
  rw [Keystore.create_eq]
  by_cases hne : password = []
  · rw [raiseIf_pos hne]
    exact .inl ⟨_, rfl⟩
  · rw [raiseIf_neg hne]
    rcases withPassword_cases password (keeps_packWrapped P m params hasPassphrase) w
      with h | h | ⟨pw, a, w', h⟩
    · exact .inl h
    · exact .inr (.inl h)
    · exact .inr (.inr ⟨pw, _, _, h, rfl⟩)

theorem unlock_cases (ctx : KeystoreContext) (password : PyStr) :
    (∃ e, (ctx.unlock P password).run w = .error e w) ∨
    (∃ pw e w', Encodes password pw ∧ (ctx.unlock P password).run w = .error e w' ∧
      w'.secrets = w.secrets.alloc pw) ∨
    ∃ wallet w', (ctx.unlock P password).run w = .ok wallet w' := by
  rw [ctx.unlock_eq]
  rcases withPassword_cases password (keeps_unpackWrapped P ctx.blob) w
    with h | h | ⟨pw, a, w', h⟩
  · exact .inl h
  · exact .inr (.inl h)
  · exact .inr (.inr ⟨_, _, h⟩)

end Cases

/-! ### What a buffer may hold -/

namespace Client

/-- The password that a call puts into a buffer. -/
def Call.password? : Call → Option PyStr
  | .create _ password _ _ => some password
  | .unlock _ password => some password
  | _ => none

/-- A creation or an unlocking raised. -/
def Answer.Raised : Answer → Prop
  | .keystore (.error _) => True
  | .wallet (.error _) => True
  | _ => False

end Client

/-- The buffer holds zeros. -/
def Blank (s : SecretBytes) : Prop := ∀ b ∈ s.buf, b = 0

theorem blank_zeroize (s : SecretBytes) : Blank s.zeroize := by
  intro b hb
  rw [SecretBytes.zeroize_buf] at hb
  exact List.eq_of_mem_replicate hb

/-- The buffer is the seed of an open wallet. -/
def Live (s : Session) (r : ℕ) : Prop :=
  ∃ wallet ∈ s.wallets, wallet.seed = r ∧ s.world.flags.read wallet.closed = false

/-- The buffer holds the password of a call that raised. -/
def LeftBehind (l : List (Client.Call × Client.Answer)) (s : SecretBytes) : Prop :=
  ∃ e ∈ l, e.2.Raised ∧ ∃ password, e.1.password? = some password ∧ Encodes password s

/-- Every buffer from `n` on is one of the three. -/
structure Accounted (n : ℕ) (l : List (Client.Call × Client.Answer)) (s : Client) : Prop where
  separate : s.session.Separate
  cells : ∀ r, n ≤ r → r < s.world.secrets.next →
    Blank (s.world.secrets.read r) ∨ Live s.session r ∨ LeftBehind l (s.world.secrets.read r)

section Step

variable {P : Primitives} {n : ℕ} {l : List (Client.Call × Client.Answer)} {s s' : Client}

theorem LeftBehind.concat {pw : SecretBytes} (h : LeftBehind l pw)
    (e : Client.Call × Client.Answer) : LeftBehind (l ++ [e]) pw := by
  obtain ⟨e', he', h⟩ := h
  exact ⟨e', List.mem_append_left _ he', h⟩

/-- **The frame of a call.** If the buffers and flags in use stay as they are, only the new buffers
have to be accounted for. -/
theorem Accounted.of_extends (h : Accounted n l s) (e : Client.Call × Client.Answer)
    (hext : s.world.Extends s'.world) (hseparate : s'.session.Separate)
    (hwallets : ∀ wallet ∈ s.session.wallets, wallet ∈ s'.session.wallets)
    (hnew : ∀ r, s.world.secrets.next ≤ r → r < s'.world.secrets.next →
      Blank (s'.world.secrets.read r) ∨ Live s'.session r ∨
        LeftBehind (l ++ [e]) (s'.world.secrets.read r)) :
    Accounted n (l ++ [e]) s' where
  separate := hseparate
  cells := by
    intro r hn hr
    -- a cell was there before the call, or is new
    by_cases hold : r < s.world.secrets.next
    swap
    · exact hnew r (Nat.le_of_not_lt hold) hr
    have hread : s'.world.secrets.read r = s.world.secrets.read r := hext.secrets_read r hold
    rw [hread]
    rcases h.cells r hn hold with hblank | ⟨wallet, hmem, hseed, hflag⟩ | hleft
    · exact .inl hblank
    -- an open wallet is still open, as its flag was in use before
    · refine .inr (.inl ⟨wallet, hwallets wallet hmem, hseed, ?_⟩)
      exact (hext.flags_read _ (h.separate.closed_lt wallet hmem)).trans hflag
    · exact .inr (.inr (hleft.concat e))

/-- A call that allocates nothing. -/
theorem Accounted.of_eq (h : Accounted n l s) (e : Client.Call × Client.Answer)
    (hsecrets : s'.world.secrets = s.world.secrets) (hflags : s'.world.flags = s.world.flags)
    (hwallets : s'.session.wallets = s.session.wallets) : Accounted n (l ++ [e]) s' := by
  refine h.of_extends e (.of_eq hsecrets hflags) ?_ (fun wallet hw => hwallets ▸ hw) ?_
  · obtain ⟨⟨w', wallets'⟩, _⟩ := s'
    subst hwallets
    exact h.separate.of_next (by rw [← hsecrets]) (by rw [← hflags])
  · intro r hge hlt
    rw [hsecrets] at hlt
    omega

/-- A password that is left behind is accounted for. -/
theorem Accounted.of_raised (h : Accounted n l s) {e : Client.Call × Client.Answer} {w' : World}
    {password : PyStr} {pw : SecretBytes} (hext : s.world.Extends w')
    (hsecrets : w'.secrets = s.world.secrets.alloc pw) (hraised : e.2.Raised)
    (hpassword : e.1.password? = some password) (hencodes : Encodes password pw) :
    Accounted n (l ++ [e]) (s.withWorld w') := by
  refine h.of_extends e hext (h.separate.of_next hext.secrets_next hext.flags_next)
    (fun _ hw => hw) fun r hge hlt => ?_
  change r < w'.secrets.next at hlt
  -- the wrapper is the only new cell
  rw [hsecrets, Store.next_alloc] at hlt
  obtain rfl : r = s.world.secrets.next := by omega
  refine .inr (.inr
    ⟨e, List.mem_append_right _ List.mem_cons_self, hraised, password, hpassword, ?_⟩)
  change Encodes password (w'.secrets.read s.world.secrets.next)
  rwa [hsecrets, Store.read_alloc_self]

theorem Accounted.create (h : Accounted n l s) (m : Mnemonic) (password : PyStr)
    (params : Argon2Params) (hasPassphrase : Bool) {e : Client.Call × Client.Answer}
    (he : e = (.create m password params hasPassphrase,
      (s.exec P (.create m password params hasPassphrase)).1)) :
    Accounted n (l ++ [e]) (s.exec P (.create m password params hasPassphrase)).2 := by
  subst he
  have hext := extends_create P m password params hasPassphrase s.world
  -- refused at once, raised with the wrapper left, or returned
  rcases create_cases P s.world m password params hasPassphrase with
    ⟨x, hrun⟩ | ⟨pw, x, w', hpw, hrun, hsecrets⟩ | ⟨pw, ks, w', hrun, hsecrets⟩
  · rw [Client.exec_create_of_error (Effect.outcome_of_error hrun), Effect.after_of_error hrun]
    exact h.of_eq _ rfl rfl rfl
  · rw [Effect.after_of_error hrun] at hext
    rw [Client.exec_create_of_error (Effect.outcome_of_error hrun), Effect.after_of_error hrun]
    exact h.of_raised hext hsecrets trivial rfl hpw
  · rw [Effect.after_of_ok hrun] at hext
    rw [Client.exec_create_of_ok (Effect.outcome_of_ok hrun), Effect.after_of_ok hrun]
    refine h.of_extends _ hext (h.separate.of_next hext.secrets_next hext.flags_next)
      (fun _ hw => hw) fun r hge hlt => .inl ?_
    -- the new buffer was overwritten
    change r < w'.secrets.next at hlt
    rw [hsecrets, Store.next_write, Store.next_alloc] at hlt
    obtain rfl : r = s.world.secrets.next := by omega
    change Blank (w'.secrets.read s.world.secrets.next)
    rw [hsecrets, Store.read_write_self]
    exact blank_zeroize pw

theorem Accounted.unlock (h : Accounted n l s) (i : ℕ) (password : PyStr)
    {e : Client.Call × Client.Answer}
    (he : e = (.unlock i password, (s.exec P (.unlock i password)).1)) :
    Accounted n (l ++ [e]) (s.exec P (.unlock i password)).2 := by
  subst he
  cases hget : s.contexts[i]? with
  | none =>
    rw [Client.exec_unlock_of_none hget]
    exact h.of_eq _ rfl rfl rfl
  | some ctx =>
    have hext := extends_unlock P ctx password s.world
    rw [Client.exec_unlock_of_some hget]
    rcases unlock_cases P s.world ctx password with
      ⟨x, hrun⟩ | ⟨pw, x, w', hpw, hrun, hsecrets⟩ | ⟨wallet, w', hrun⟩
    · rw [Session.exec_unlock_of_error (Effect.outcome_of_error hrun), Effect.after_of_error hrun]
      exact h.of_eq _ rfl rfl rfl
    · rw [Effect.after_of_error hrun] at hext
      rw [Session.exec_unlock_of_error (Effect.outcome_of_error hrun), Effect.after_of_error hrun,
        Effect.outcome_of_error hrun]
      exact h.of_raised hext hsecrets trivial rfl hpw
    -- the new wallet joins, and its cells are the last ones
    · have hseparate : (s.session.exec P ctx (.unlock password)).Separate :=
        h.separate.exec_unlock password
      rw [Effect.after_of_ok hrun] at hext
      rw [Session.exec_unlock_of_ok (Effect.outcome_of_ok hrun), Effect.after_of_ok hrun]
        at hseparate ⊢
      refine h.of_extends _ hext hseparate (fun _ hw => List.mem_append_left _ hw)
        fun r hge hlt => ?_
      obtain ⟨pw, u, hpw, hu, hwallet, rfl⟩ := KeystoreContext.run_unlock_eq_ok_iff.mp hrun
      -- the wrapper comes first, then the seed
      change r < s.world.secrets.next + 1 + 1 at hlt
      by_cases hr : r = s.world.secrets.next
      · subst hr
        have hread : (unlockedWorld s.world pw (Envelope.headerCall ctx.blob pw)
            u.seed).secrets.read s.world.secrets.next = pw.zeroize :=
          (Store.read_alloc_of_lt _ _ (Nat.lt_succ_self _)).trans (Store.read_write_self _ _ _)
        left
        change Blank ((unlockedWorld s.world pw _ u.seed).secrets.read _)
        rw [hread]
        exact blank_zeroize pw
      · obtain rfl : r = s.world.secrets.next + 1 := by omega
        refine .inr (.inl ⟨wallet, List.mem_append_right _ List.mem_cons_self, ?_, ?_⟩)
        · rw [hwallet]
          rfl
        · rw [hwallet]
          exact read_unlockedWorld_closed P s.world pw (Envelope.headerCall ctx.blob pw) u.seed

/-- Closing blanks the seed of its wallet and writes nothing else. -/
theorem Accounted.close (h : Accounted n l s) (i : ℕ) {e : Client.Call × Client.Answer} :
    Accounted n (l ++ [e]) (s.exec P (.close i)).2 := by
  cases hget : s.session.wallets[i]? with
  | none =>
    rw [Client.exec_close_of_none hget]
    exact h.of_eq _ rfl rfl rfl
  | some wallet =>
    have hafter := Effect.after_of_ok (wallet.run_close s.world)
    rw [Client.exec_close_of_some hget, hafter]
    refine ⟨h.separate.of_next le_rfl le_rfl, fun r hn hr => ?_⟩
    change r < s.world.secrets.next at hr
    change Blank (Store.read (Store.write _ _ _) r) ∨ _ ∨
      LeftBehind _ (Store.read (Store.write _ _ _) r)
    -- one cell is blanked, and the flag of one wallet is set
    by_cases hr' : r = wallet.seed
    · subst hr'
      rw [Store.read_write_self]
      exact .inl (blank_zeroize _)
    rw [Store.read_write_of_ne _ _ hr']
    rcases h.cells r hn hr with hblank | ⟨other, hmem, hseed, hflag⟩ | hleft
    · exact .inl hblank
    · -- another wallet has another flag
      obtain ⟨j, hj⟩ := List.mem_iff_getElem?.mp hmem
      have hij : i ≠ j := by
        rintro rfl
        obtain rfl := Option.some.inj (hget.symm.trans hj)
        exact hr' hseed.symm
      have hne := (h.separate.ne hij hget hj).2
      exact .inr (.inl ⟨other, hmem, hseed, (Store.read_write_of_ne _ _ hne.symm).trans hflag⟩)
    · exact .inr (.inr (hleft.concat e))

/-- **One call.** What it leaves in memory is accounted for. -/
theorem Accounted.exec (h : Accounted n l s) (c : Client.Call) :
    Accounted n (l ++ [(c, (s.exec P c).1)]) (s.exec P c).2 := by
  cases c with
  | generate strength =>
    exact h.of_eq _ ((inert_secrets.rules P).generate strength s.world)
      ((inert_flags.rules P).generate strength s.world) rfl
  | create m password params hasPassphrase => exact h.create m password params hasPassphrase rfl
  | unlock i password => exact h.unlock i password rfl
  | close i => exact h.close i
  | save i path =>
    cases hget : s.keystores[i]? with
    | none =>
      rw [Client.exec_save_of_none hget]
      exact h.of_eq _ rfl rfl rfl
    | some ks =>
      rw [Client.exec_save_of_some hget]
      exact h.of_eq _ rfl rfl rfl
  | openFile path =>
    exact h.of_eq _ (keeps_openFile (fun _ _ => rfl) path s.world)
      (keeps_openFile (fun _ _ => rfl) path s.world) rfl
  | context blob => exact h.of_eq _ rfl rfl rfl
  -- deriving and signing write to no cell, returned or not
  | derive i path scheme =>
    cases hget : s.session.wallets[i]? with
    | none =>
      rw [Client.exec_derive_of_none hget]
      exact h.of_eq _ rfl rfl rfl
    | some wallet =>
      cases hout : Effect.outcome (wallet.deriveAccount P path scheme) s.world with
      | error x =>
        rw [Client.exec_derive_of_error hget hout]
        exact h.of_eq _ rfl rfl rfl
      | ok account =>
        rw [Client.exec_derive_of_ok hget hout]
        exact h.of_eq _ rfl rfl rfl
  | sign i path message scheme =>
    cases hget : s.session.wallets[i]? with
    | none =>
      rw [Client.exec_sign_of_none hget]
      exact h.of_eq _ rfl rfl rfl
    | some wallet =>
      rw [Client.exec_sign_of_some hget]
      exact h.of_eq _
        (wallet.keeps_signMessage (fun _ _ => rfl) message s.world)
        (wallet.keeps_signMessage (fun _ _ => rfl) message s.world) rfl
  | accountSign j message =>
    cases hget : s.accounts[j]? with
    | none =>
      rw [Client.exec_accountSign_of_none hget]
      exact h.of_eq _ rfl rfl rfl
    | some account =>
      rw [Client.exec_accountSign_of_some hget]
      exact h.of_eq _ (account.keeps_sign P (fun _ _ => rfl) message s.world)
        (account.keeps_sign P (fun _ _ => rfl) message s.world) rfl

end Step

/-- **What a run leaves in memory.** At any moment every cell that was allocated since the start
holds zeros, or it is the seed of a wallet that was not closed, or it holds the password of a
creation or an unlocking that raised. -/
theorem accounted_run (P : Primitives) (w : World) (calls : List Client.Call) :
    Accounted w.secrets.next (Trace.trace (Client.exec P) (.start w) calls)
      (Trace.final (Client.exec P) (.start w) calls) := by
  have hstart : Accounted w.secrets.next (Trace.trace (Client.exec P) (.start w) []) (.start w) :=
    -- nothing has been allocated yet
    ⟨Session.separate_start w, fun r hn hr => absurd hr (Nat.not_lt.mpr hn)⟩
  refine Trace.final_invariant (Client.exec P)
    (I := fun calls s => Accounted w.secrets.next (Trace.trace (Client.exec P) (.start w) calls) s)
    hstart (fun calls c t ht h => ?_) calls
  rw [Trace.trace_append, ← ht]
  exact h.exec c

end KeystoneCrypto
