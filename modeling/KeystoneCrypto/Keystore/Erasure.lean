import KeystoneCrypto.Keystore.Recovery

/-!
# What is left after `close`

An unlocked wallet refers to two cells, its seed buffer and its flag, and it holds a mnemonic.
Deriving and signing leave both cells alone, closing overwrites them, so what the cells hold at the
end of a run depends on the length of the seed only (`cells_runOps`). The mnemonic is a string in
the wallet itself. Nothing overwrites it, and it spells the entropy.

Two wallets with different entropies can therefore be told apart after `close` exactly when they
have a mnemonic, which is when the entropy has one of the five BIP-39 sizes (`observe_eq_iff`).
-/

namespace KeystoneCrypto

theorem SecretBytes.zeroize_zeroize (s : SecretBytes) : s.zeroize.zeroize = s.zeroize :=
  SecretBytes.ext (by simp)

namespace Wallet

/-- The calls a wallet takes. -/
inductive Op
  | derive (path : DerivationPath) (scheme : PyStr)
  | sign (path : DerivationPath) (message : Bytes) (scheme : PyStr)
  | close
  deriving DecidableEq

/-- A call, for its effects. -/
def Op.exec (P : Primitives) (wallet : Wallet) : Op → Py Unit
  | derive path scheme => do let _ ← wallet.deriveAccount P path scheme
  | sign path message scheme => do let _ ← wallet.signMessage P path message scheme
  | close => wallet.close

/-- The state after a sequence of calls, some of which may have raised. -/
def runOps (P : Primitives) (wallet : Wallet) (ops : List Op) (w : World) : World :=
  Effect.runAll (ops.map (Op.exec P wallet)) w

/-- What can be read off a wallet: its seed buffer, phrase and entropy of its mnemonic, and
`is_closed`. -/
structure Observation where
  seed : Bytes
  mnemonic : Option (PyStr × Except PyExc SecretBytes)
  isClosed : Bool

def observe (wallet : Wallet) (w : World) : Observation where
  seed := (w.secrets.read wallet.seed).buf
  mnemonic := wallet.mnemonic.map fun m => (m.phrase, m.entropy)
  isClosed := w.flags.read wallet.closed

/-! ### The cells of a wallet -/

/-- What the cells of a wallet hold. -/
def cells (wallet : Wallet) (w : World) : SecretBytes × Bool :=
  (w.secrets.read wallet.seed, w.flags.read wallet.closed)

section Cells

variable (P : Primitives) (wallet : Wallet)

theorem cells_randomFree : RandomFree wallet.cells := fun _ _ => rfl

theorem cells_close (w : World) : wallet.cells (Effect.after wallet.close w)
    = ((w.secrets.read wallet.seed).zeroize, true) := by
  rw [Effect.after_of_ok (run_close w)]
  exact Prod.ext (Store.read_write_self _ _ _) (Store.read_write_self _ _ _)

/-- **One call.** Only `close` writes to the cells. -/
theorem cells_exec (op : Op) (w : World) : wallet.cells (Effect.after (op.exec P wallet) w)
    = if op = .close then ((w.secrets.read wallet.seed).zeroize, true) else wallet.cells w := by
  cases op with
  | derive path scheme =>
    rw [if_neg Op.noConfusion]
    refine (Effect.part_after_bind wallet.cells (fun _ => .pure _) w).trans ?_
    rw [after_deriveAccount]
  | sign path message scheme =>
    rw [if_neg Op.noConfusion]
    refine (Effect.part_after_bind wallet.cells (fun _ => .pure _) w).trans ?_
    exact wallet.keeps_signMessage wallet.cells_randomFree message w
  | close =>
    rw [if_pos rfl]
    exact wallet.cells_close w

/-- Closing is final: whatever is called on an erased wallet, it stays erased. -/
theorem erased_runOps {s : SecretBytes} (ops : List Op) {w : World}
    (h : wallet.cells w = (s.zeroize, true)) :
    wallet.cells (wallet.runOps P ops w) = (s.zeroize, true) := by
  refine Effect.runAll_induction (I := fun w => wallet.cells w = (s.zeroize, true)) _ ?_ h
  intro x hx w hw
  obtain ⟨op, -, rfl⟩ := List.mem_map.mp hx
  -- a further `close` overwrites zeros with zeros, other calls write nothing
  have hseed : w.secrets.read wallet.seed = s.zeroize := congrArg Prod.fst hw
  rw [cells_exec, hseed, SecretBytes.zeroize_zeroize, hw, ite_self]

/-- **A run** with a `close` in it ends with zeros and a set flag, and one without leaves the cells
alone. -/
theorem cells_runOps (ops : List Op) (w : World) : wallet.cells (wallet.runOps P ops w)
    = if .close ∈ ops then ((w.secrets.read wallet.seed).zeroize, true) else wallet.cells w := by
  induction ops generalizing w with
  | nil => rfl
  | cons op ops ih =>
    have hstep := wallet.cells_exec P op w
    change wallet.cells (wallet.runOps P ops (Effect.after (op.exec P wallet) w)) = _
    by_cases hop : op = .close
    · -- the first call closes, and no later call undoes that
      rw [if_pos hop] at hstep
      rw [if_pos (List.mem_cons.mpr (.inl hop.symm))]
      exact wallet.erased_runOps P ops hstep
    · -- the first call leaves the cells alone, so the rest starts from the same ones
      rw [if_neg hop] at hstep
      have hseed : (Effect.after (op.exec P wallet) w).secrets.read wallet.seed
          = w.secrets.read wallet.seed := congrArg Prod.fst hstep
      have hmem : .close ∈ op :: ops ↔ .close ∈ ops := by
        rw [List.mem_cons, or_iff_right (Ne.symm hop)]
      rw [ih, hstep, hseed]
      simp only [hmem]

/-- What is left to observe after a `close`. -/
theorem observe_runOps {ops : List Op} (hclose : .close ∈ ops) (w : World) :
    wallet.observe (wallet.runOps P ops w)
      = ⟨List.replicate (w.secrets.read wallet.seed).buf.length 0,
          wallet.mnemonic.map fun m => (m.phrase, m.entropy), true⟩ := by
  have hcells := wallet.cells_runOps P ops w
  rw [if_pos hclose] at hcells
  have hseed : (wallet.runOps P ops w).secrets.read wallet.seed = _ := congrArg Prod.fst hcells
  have hflag : (wallet.runOps P ops w).flags.read wallet.closed = _ := congrArg Prod.snd hcells
  unfold observe
  rw [hseed, hflag, SecretBytes.zeroize_buf]

end Cells

end Wallet

/-! ### The mnemonic of a wallet -/

/-- The mnemonic made from an entropy has that entropy. -/
theorem exists_fromEntropy (P : Primitives) {e : SecretBytes}
    (hsize : e.buf.length ∈ entropySizes) :
    ∃ m, Mnemonic.fromEntropy P e = .ok m ∧ m.entropy = .ok e := by
  obtain ⟨k, -, h₂, hlen⟩ := mem_entropySizes_iff.mp hsize
  exact ⟨_, fromEntropy_eq (by omega) hlen, entropy_eq (by omega) hlen split_joinSpace_wordsOf⟩

section Unlocked

variable {P : Primitives} {ctx : KeystoreContext} {password : PyStr} {w w' : World}
  {wallet : Wallet}

/-- The mnemonic of an unlocked wallet is the one `unlock` reconstructs from its seed. -/
theorem mnemonic_of_unlock (h : (ctx.unlock P password).run w = .ok wallet w') :
    wallet.mnemonic = if (w'.secrets.read wallet.seed).buf.length ∈ entropySizes
      then (Mnemonic.fromEntropy P (w'.secrets.read wallet.seed)).toOption else none := by
  obtain ⟨pw, u, -, -, rfl, rfl⟩ := KeystoreContext.run_unlock_eq_ok_iff.mp h
  rw [read_unlockedWorld_seed]
  exact reconstruct_eq P u.seed _

/-- With a BIP-39 size the wallet shows its entropy through the mnemonic, for good. -/
theorem map_entropy_of_unlock (h : (ctx.unlock P password).run w = .ok wallet w')
    (hsize : (w'.secrets.read wallet.seed).buf.length ∈ entropySizes) :
    wallet.mnemonic.map Mnemonic.entropy = some (.ok (w'.secrets.read wallet.seed)) := by
  obtain ⟨m, hm, he⟩ := exists_fromEntropy P hsize
  rw [mnemonic_of_unlock h, if_pos hsize, hm]
  exact congrArg some he

/-- Every seed of up to 255 bytes can be stored and unlocked. -/
theorem exists_unlock (hP : P.AesGcmUndoes) {pw : SecretBytes} (hpw : Encodes password pw)
    (e : SecretBytes) (hshort : e.buf.length ≤ 255) (w : World) :
    ∃ ctx wallet w', (KeystoreContext.unlock P ctx password).run w = .ok wallet w' ∧
      w'.secrets.read wallet.seed = e := by
  -- salt, nonce and timestamp are zeros here; any others would do
  have hsalt : ((List.replicate 16 (0 : UInt8)).length : ℤ) = interactiveProfile.saltLen := rfl
  have hnonce : (List.replicate 12 (0 : UInt8)).length = 12 := List.length_replicate
  obtain ⟨s, -⟩ := Envelope.exists_sealing P profiles_public.1 rfl e pw false hshort
    (show (-2 ^ 63 : ℤ) ≤ 0 by norm_num) (by norm_num) hsalt hnonce
  have hopens := s.unpacks rfl (s.opens_of_undoes hP)
  exact ⟨⟨s.blob⟩, unlockedWallet P w e, unlockedWorld w pw (Envelope.headerCall s.blob pw) e,
    KeystoreContext.run_unlock_eq_ok_iff.mpr ⟨pw, _, hpw, hopens, rfl, rfl⟩,
    read_unlockedWorld_seed P w pw _ e⟩

end Unlocked

/-- **When closing erases the secret.** Two unlocked wallets with different entropies of one length
look the same after any sequence of calls with a `close` in it exactly if that length is none of
the five BIP-39 sizes. -/
theorem observe_eq_iff {P : Primitives} {ctx₁ ctx₂ : KeystoreContext} {password₁ password₂ : PyStr}
    {w₁ w₁' w₂ w₂' : World} {wallet₁ wallet₂ : Wallet}
    (h₁ : (ctx₁.unlock P password₁).run w₁ = .ok wallet₁ w₁')
    (h₂ : (ctx₂.unlock P password₂).run w₂ = .ok wallet₂ w₂')
    (hlen : (w₁'.secrets.read wallet₁.seed).buf.length
      = (w₂'.secrets.read wallet₂.seed).buf.length)
    (hne : w₁'.secrets.read wallet₁.seed ≠ w₂'.secrets.read wallet₂.seed)
    {ops : List Wallet.Op} (hclose : .close ∈ ops) :
    wallet₁.observe (wallet₁.runOps P ops w₁') = wallet₂.observe (wallet₂.runOps P ops w₂') ↔
      (w₁'.secrets.read wallet₁.seed).buf.length ∉ entropySizes := by
  rw [Wallet.observe_runOps P wallet₁ hclose, Wallet.observe_runOps P wallet₂ hclose, ← hlen]
  refine ⟨?_, ?_⟩
  · -- equal observations would have equal mnemonics, and those carry the entropies
    intro heq hsize
    have hmn := congrArg (fun o => o.mnemonic.map Prod.snd) heq
    simp only [Option.map_map] at hmn
    change wallet₁.mnemonic.map Mnemonic.entropy = wallet₂.mnemonic.map Mnemonic.entropy at hmn
    rw [map_entropy_of_unlock h₁ hsize, map_entropy_of_unlock h₂ (hlen ▸ hsize)] at hmn
    exact hne (Except.ok.inj (Option.some.inj hmn))
  · -- without a mnemonic nothing but the length is left
    intro hsize
    rw [mnemonic_of_unlock h₁, mnemonic_of_unlock h₂, if_neg hsize, if_neg (hlen ▸ hsize)]

/-- Sixteen zeros. -/
def zeros : SecretBytes := ⟨List.replicate 16 0, by decide⟩

/-- Sixteen ones. -/
def ones16 : SecretBytes := ⟨List.replicate 16 1, by decide⟩

/-- Signing, closing, and an attempt to derive. -/
def someOps : List Wallet.Op :=
  [.sign ⟨[]⟩ [1] ecdsaScheme, .close, .derive ⟨[(44, true)]⟩ ecdsaScheme]

theorem observe_eq_iff_someOps : ∃ (wallet₁ wallet₂ : Wallet) (w₁ w₂ : World),
    w₁.secrets.read wallet₁.seed = zeros ∧ w₂.secrets.read wallet₂.seed = ones16 ∧
    (wallet₁.observe (wallet₁.runOps Primitives.toy someOps w₁)
        = wallet₂.observe (wallet₂.runOps Primitives.toy someOps w₂) ↔
      (w₁.secrets.read wallet₁.seed).buf.length ∉ entropySizes) := by
  obtain ⟨_, wallet₁, w₁, h₁, hz⟩ :=
    exists_unlock Primitives.toy_undoes encodes_pw zeros (by decide) zeroWorld
  obtain ⟨_, wallet₂, w₂, h₂, ho⟩ :=
    exists_unlock Primitives.toy_undoes encodes_pw ones16 (by decide) zeroWorld
  refine ⟨wallet₁, wallet₂, w₁, w₂, hz, ho,
    observe_eq_iff h₁ h₂ ?_ ?_ (show .close ∈ someOps by decide)⟩
  · rw [hz, ho]
    rfl
  · rw [hz, ho]
    decide

/-- **Closing leaves the entropy readable.** Two wallets over sixteen zeros and sixteen ones still
show them after they were closed, through their mnemonics. -/
theorem closed_wallets_differ : ∃ ctx₁ ctx₂ wallet₁ wallet₂ w₁ w₂,
    (KeystoreContext.unlock Primitives.toy ctx₁ (PyStr.ofString "pw")).run zeroWorld
      = .ok wallet₁ w₁ ∧
    (KeystoreContext.unlock Primitives.toy ctx₂ (PyStr.ofString "pw")).run zeroWorld
      = .ok wallet₂ w₂ ∧
    (wallet₁.observe (wallet₁.runOps Primitives.toy [.close] w₁)).mnemonic.map Prod.snd
      = some (.ok zeros) ∧
    (wallet₂.observe (wallet₂.runOps Primitives.toy [.close] w₂)).mnemonic.map Prod.snd
      = some (.ok ones16) ∧
    zeros.buf.length = ones16.buf.length ∧ zeros ≠ ones16 := by
  obtain ⟨ctx₁, wallet₁, w₁, h₁, hz⟩ :=
    exists_unlock Primitives.toy_undoes encodes_pw zeros (by decide) zeroWorld
  obtain ⟨ctx₂, wallet₂, w₂, h₂, ho⟩ :=
    exists_unlock Primitives.toy_undoes encodes_pw ones16 (by decide) zeroWorld
  have hm₁ := map_entropy_of_unlock h₁ (by rw [hz]; decide)
  have hm₂ := map_entropy_of_unlock h₂ (by rw [ho]; decide)
  rw [hz] at hm₁
  rw [ho] at hm₂
  refine ⟨ctx₁, ctx₂, wallet₁, wallet₂, w₁, w₂, h₁, h₂, ?_, ?_, rfl, by decide⟩
  · rw [Wallet.observe_runOps Primitives.toy wallet₁ List.mem_cons_self, ← hm₁]
    exact Option.map_map _ _ _
  · rw [Wallet.observe_runOps Primitives.toy wallet₂ List.mem_cons_self, ← hm₂]
    exact Option.map_map _ _ _

end KeystoneCrypto
