import KeystoneCrypto.Keystore.Client
import KeystoneCrypto.Keystore.Passwords

/-!
# Every client sees a vault

Whatever a client calls, the answer it gets is one that a vault may give: a keystore is a safe, a
saved blob is a file that holds the safe, and a wallet holds the secret of the safe it was unlocked
from, until it is closed (`Simulates.exec`).

The proof is a simulation: `Simulates` relates a client to a vault, and `Matched` says of a call
that the vault may answer it as the library does and that the relation holds again. There is one
lemma for each call; objects have the same numbers on both sides, so that each starts with the
question whether there is an object under the number (`getElem?_cases`).

* Blobs are what the relation is about. `Seals` says that a blob opens with its password to its
  entropy, and with no password that the vault would not accept. Creating a keystore establishes it
  (`Secures` is what has to be assumed of a creation), and everything else only passes blobs on.
  `Origin` allows for blobs that nothing is known of: those that a client brings along, keystores
  with a salt that is not 16 bytes long (they cannot be read back), what a broken-off write leaves.
* `Stores` is the part about files. The vault knows a file by what its path leads to, so that saving
  to `./k` and opening `k` are about one file. What a read or a write can have done is listed in
  `Disk.read_cases` and `Disk.write_cases`, and each possibility is an answer of the vault, as far
  as its slack admits failures.
* `Holds` is the part about wallets: buffer and flag are as the vault has them. Calls that touch
  neither keep it because the cells in use do not change (`Simulates.withWorld`, the frame); closing
  one wallet leaves the others alone because their cells are apart (`Session.Separate`).

Two assumptions give `Secures`. With a cipher that undoes its encryption each keystore opens
(`secures_of_undoes`), and the passwords accepted besides its own are those that open it; if the
creation is `Client.Locked`, these are at most passwords that nobody tries (`secures_of_locked`).
-/

namespace KeystoneCrypto

/-! ### The cells in use -/

/-- Creating leaves the cells in use alone. -/
theorem extends_create (P : Primitives) (m : Mnemonic) (password : PyStr) (params : Argon2Params)
    (hasPassphrase : Bool) (w : World) :
    w.Extends (Effect.after (Keystore.create P m password params hasPassphrase) w) := by
  rw [Keystore.create_eq]
  -- an empty password is refused before anything is allocated
  by_cases hne : password = []
  · rw [raiseIf_pos hne]
    exact .of_eq rfl rfl
  · rw [raiseIf_neg hne]
    exact extends_withPassword password (keeps_packWrapped P m params hasPassphrase)
      (fun _ => .bind (.lift _) fun _ => .bind (fun _ => rfl) fun _ =>
        (inert_flags.rules P).pack _ _ _ _ _ _) (fun _ _ => .of_eq rfl rfl) w

/-! ### What blobs are sealed for -/

/-- A safe of the library: an entropy and its password. -/
abbrev Safe := Vault.Safe SecretBytes PyStr

/-- What a client holds, as a vault. -/
abbrev VaultState := Vault.State SecretBytes PyStr PyStr (DerivationPath × PyStr)

/-- With its password the blob opens to the secret, and it opens with no password that the safe
would not accept. -/
structure Seals (P : Primitives) (Accepts : PyStr → PyStr → Prop) (blob : Bytes) (safe : Safe) :
    Prop where
  opens : ∃ pw hasPassphrase ts, Encodes safe.password pw ∧
    Envelope.Unpacks P blob pw ⟨safe.secret, hasPassphrase, ts⟩
  accepts : ∀ password pw u, Encodes password pw → Envelope.Unpacks P blob pw u →
    password = safe.password ∨ Accepts safe.password password

/-- Where a blob comes from: it was created for a safe, or nothing is known. -/
def Origin (P : Primitives) (Accepts : PyStr → PyStr → Prop) (blob : Bytes) : Option Safe → Prop
  | some safe => Seals P Accepts blob safe
  | none => True

theorem Envelope.Unpacks.unique {P : Primitives} {blob : Bytes} {pw : SecretBytes}
    {u u' : UnpackedKeystore} (h : Envelope.Unpacks P blob pw u)
    (h' : Envelope.Unpacks P blob pw u') : u' = u := by
  obtain ⟨-, key, hkey, hu⟩ := h
  obtain ⟨-, key', hkey', hu'⟩ := h'
  obtain rfl : key = key' := Except.ok.inj (hkey.symm.trans hkey')
  exact Except.ok.inj (hu'.symm.trans hu)

section Sealing

variable {P : Primitives} {e pw : SecretBytes} {password : PyStr} {params : Argon2Params}
  {hasPassphrase : Bool} {ts : ℤ} {s : Envelope.Sealing P e pw params hasPassphrase ts}

/-- Of the passwords that are tried, a locked sealing opens under its own only. -/
theorem Envelope.Sealing.LocksOut.eq_of_unpacks {tried : SecretBytes → Prop}
    (hs : s.LocksOut tried) (h16 : params.saltLen = 16) {pw' : SecretBytes} (htried : tried pw')
    {u : UnpackedKeystore} (h : Envelope.Unpacks P s.blob pw' u) : pw' = pw := by
  obtain ⟨-, key, hkey, hopen⟩ := h
  -- the header is the one that was written, so the key in question is the key of `pw'` for this
  -- salt
  unfold Envelope.headerCall at hkey
  rw [s.header_blob h16] at hkey hopen
  obtain ⟨plaintext, -, -, -, hdecrypt, -⟩ := Envelope.openHeader_eq_ok_iff.mp hopen
  by_contra hne
  exact hs.refused htried hne hkey plaintext hdecrypt

/-- A sealing that opens, as far as other passwords do not open it too. -/
theorem Envelope.Sealing.seals (s : Envelope.Sealing P e pw params hasPassphrase ts)
    (h16 : params.saltLen = 16) (hopens : s.Opens) (hpw : Encodes password pw)
    {Accepts : PyStr → PyStr → Prop}
    (haccepts : ∀ q qw u, Encodes q qw → Envelope.Unpacks P s.blob qw u → Accepts password q) :
    Seals P Accepts s.blob ⟨e, password⟩ where
  opens := ⟨pw, hasPassphrase, ts, hpw, s.unpacks h16 hopens⟩
  accepts q qw u hq hu := .inr (haccepts q qw u hq hu)

/-- What the wrappers of these passwords are. -/
def Wraps (tried : PyStr → Prop) (qw : SecretBytes) : Prop := ∃ q, tried q ∧ Encodes q qw

/-- Of a locked one it is not known whether it opens with a password that is not tried. -/
theorem Envelope.Sealing.LocksOut.seals {tried : PyStr → Prop} (hs : s.LocksOut (Wraps tried))
    (h16 : params.saltLen = 16) (hopens : s.Opens) (hpw : Encodes password pw) :
    Seals P (fun _ q => ¬ tried q) s.blob ⟨e, password⟩ where
  opens := ⟨pw, hasPassphrase, ts, hpw, s.unpacks h16 hopens⟩
  accepts q qw u hq hu := by
    -- the vault may confuse passwords that nobody tries, so only the others have to be looked at
    by_cases htried : tried q
    · obtain rfl := hs.eq_of_unpacks h16 ⟨q, htried, hq⟩ hu
      exact .inl (hpw.inj hq)
    · exact .inr htried

end Sealing

/-! ### Objects with numbers -/

/-- Two lists are related entry by entry if what stands under each number is. -/
theorem forall₂_iff_getElem? {α β : Type*} {R : α → β → Prop} {l : List α} {l' : List β} :
    List.Forall₂ R l l' ↔ ∀ i : ℕ, Option.Rel R l[i]? l'[i]? := by
  refine ⟨fun h => ?_, fun h => ?_⟩
  · induction h with
    | nil => exact fun _ => .none
    -- number 0 is the head, any other one is counted from the tail
    | cons hab _ ih =>
      intro i
      cases i with
      | zero => exact .some hab
      | succ i => exact ih i
  · induction l generalizing l' with
    | nil =>
      cases l' with
      | nil => exact .nil
      | cons b l' => cases h 0
    | cons a l ih =>
      cases l' with
      | nil => cases h 0
      | cons b l' =>
        cases h 0 with
        | some hab => exact .cons hab (ih fun i => h (i + 1))

/-- What stands under a number on one side has a counterpart on the other. -/
theorem rel_cases {α β : Type*} {R : α → β → Prop} {x : Option α} {y : Option β}
    (h : Option.Rel R x y) :
    (x = none ∧ y = none) ∨ ∃ a b, x = some a ∧ y = some b ∧ R a b := by
  cases h with
  | none => exact .inl ⟨rfl, rfl⟩
  | some hab => exact .inr ⟨_, _, rfl, rfl, hab⟩

theorem getElem?_cases {α β : Type*} {R : α → β → Prop} {l : List α} {l' : List β}
    (h : List.Forall₂ R l l') (i : ℕ) : (l[i]? = none ∧ l'[i]? = none) ∨
      ∃ a b, l[i]? = some a ∧ l'[i]? = some b ∧ R a b :=
  rel_cases (forall₂_iff_getElem?.mp h i)

theorem forall₂_concat {α β : Type*} {R : α → β → Prop} {l : List α} {l' : List β} {a : α} {b : β}
    (h : List.Forall₂ R l l') (hab : R a b) : List.Forall₂ R (l ++ [a]) (l' ++ [b]) :=
  List.rel_append h (.cons hab .nil)

/-! ### The simulation -/

section Simulation

variable (P : Primitives) (L : Vault.Slack PyStr)

/-- The cells of a wallet and its mnemonic are as the vault has it. -/
structure Holds (w : World) (wallet : Wallet) (a : Vault.Wallet SecretBytes) : Prop where
  cells_eq : wallet.cells w = if a.closed then (a.secret.zeroize, true) else (a.secret, false)
  mnemonic_eq : wallet.mnemonic = KeystoreContext.reconstruct P a.secret [128, 160, 192, 224, 256]

/-- The account is the one its secret leads to. -/
def Reaches (account : Account) (a : Vault.Handle SecretBytes (DerivationPath × PyStr)) : Prop :=
  Wallet.accountOf P a.secret a.key.1 a.key.2 = .ok account

/-- Paths lead to the files of the vault, and the files hold what it says. The file system fails
only as far as the vault may. -/
structure Stores (d : PyDisk) (locate : PyStr → Option PyStr)
    (files : PyStr → Option (Option Safe)) : Prop where
  locate_eq : ∀ path, locate path = (d.locate path).toOption
  files : ∀ file, Option.Rel (Origin P L.Accepts) (d.files file) (files file)
  reliable : ¬ L.Fails → d.Reliable
  whole : ¬ L.Breaks → d.Whole

/-- A client and the vault it sees. -/
structure Simulates (s : Client) (v : VaultState) : Prop where
  separate : s.session.Separate
  keystores : List.Forall₂ (fun ks => Origin P L.Accepts (Keystore.blob ks)) s.keystores v.safes
  disk : Stores P L s.world.disk v.locate v.files
  contexts : List.Forall₂ (fun ctx => Origin P L.Accepts (KeystoreContext.blob ctx)) s.contexts
    v.contexts
  wallets : List.Forall₂ (Holds P s.world) s.session.wallets v.wallets
  accounts : List.Forall₂ (Reaches P) s.accounts v.handles

end Simulation

section Step

variable {P : Primitives} {L : Vault.Slack PyStr} {s : Client} {v : VaultState}

/-- What a wallet holds does not change while the cells in use do not. -/
theorem Holds.of_extends {w w' : World} {wallet : Wallet} {a : Vault.Wallet SecretBytes}
    (h : Holds P w wallet a) (hext : w.Extends w') (hseed : wallet.seed < w.secrets.next)
    (hclosed : wallet.closed < w.flags.next) : Holds P w' wallet a where
  cells_eq := (Prod.ext (hext.secrets_read _ hseed) (hext.flags_read _ hclosed)).trans h.cells_eq
  mnemonic_eq := h.mnemonic_eq

theorem forall₂_holds_of_extends {w' : World} {l : List (Vault.Wallet SecretBytes)}
    (hs : s.session.Separate) (h : List.Forall₂ (Holds P s.world) s.session.wallets l)
    (hext : s.world.Extends w') : List.Forall₂ (Holds P w') s.session.wallets l := by
  refine forall₂_iff_getElem?.mpr fun i => ?_
  have hi := forall₂_iff_getElem?.mp h i
  -- the two entries are made variables, so that the relation between them can be taken apart
  generalize hget : s.session.wallets[i]? = x at hi ⊢
  generalize l[i]? = y at hi ⊢
  cases hi with
  | none => exact .none
  | some hholds =>
    have hmem := List.mem_of_getElem? hget
    exact .some (hholds.of_extends hext (hs.seed_lt _ hmem) (hs.closed_lt _ hmem))

/-! ### Files -/

section Stores

variable {d : PyDisk} {locate : PyStr → Option PyStr} {files : PyStr → Option (Option Safe)}

theorem Stores.locate_of_ok (h : Stores P L d locate files) {path file : PyStr}
    (hlocate : d.locate path = .ok file) : locate path = some file := by
  rw [h.locate_eq, hlocate]
  rfl

theorem Stores.ok_of_locate (h : Stores P L d locate files) {path file : PyStr}
    (hlocate : locate path = some file) : d.locate path = .ok file := by
  rw [h.locate_eq] at hlocate
  cases hpath : d.locate path with
  | error e =>
    rw [hpath] at hlocate
    cases hlocate
  | ok other =>
    rw [hpath] at hlocate
    exact congrArg Except.ok (Option.some.inj hlocate)

/-- After an access that wrote nothing. -/
theorem Stores.used (h : Stores P L d locate files) : Stores P L d.used locate files where
  locate_eq := h.locate_eq
  files := h.files
  reliable hL := (h.reliable hL).of_tail rfl
  whole hL := (h.whole hL).of_tail rfl

/-- After an access that wrote a blob. -/
theorem Stores.put (h : Stores P L d locate files) {blob : Bytes} {c : Option Safe}
    (horigin : Origin P L.Accepts blob c) (file : PyStr) :
    Stores P L (d.put file blob) locate (Function.update files file (some c)) where
  locate_eq := h.locate_eq
  files := by
    intro other
    change Option.Rel _ (Function.update d.files file (some blob) other) _
    -- the vault updates the same file, and the others are as they were
    by_cases hother : other = file
    · subst hother
      rw [Function.update_self, Function.update_self]
      exact .some horigin
    · rw [Function.update_of_ne hother, Function.update_of_ne hother]
      exact h.files other
  reliable hL := (h.reliable hL).of_tail rfl
  whole hL := (h.whole hL).of_tail rfl

/-- A vault whose names lead where these paths do may fail where the file system does. -/
theorem Stores.fails (h : Stores P L d locate files) {p q : Prop} (hp : p → q)
    -- a disk that is not reliable is what allows the vault to fail
    (hfails : p ∨ ¬ d.Reliable) : q ∨ L.Fails :=
  hfails.imp hp (not_imp_comm.mp h.reliable)

end Stores

/-- **The frame of a call.** A call that leaves the cells in use alone keeps the simulation, as far
as the files are accounted for. -/
theorem Simulates.withWorld (h : Simulates P L s v) {w' : World}
    {files : PyStr → Option (Option Safe)} (hext : s.world.Extends w')
    (hdisk : Stores P L w'.disk v.locate files) :
    Simulates P L (s.withWorld w') { v with files } where
  separate := h.separate.of_next hext.secrets_next hext.flags_next
  keystores := h.keystores
  disk := hdisk
  contexts := h.contexts
  wallets := forall₂_holds_of_extends (s := s) h.separate h.wallets hext
  accounts := h.accounts

theorem Simulates.of_extends (h : Simulates P L s v) {w' : World}
    (hext : s.world.Extends w') (hdisk : w'.disk = s.world.disk) :
    Simulates P L (s.withWorld w') v :=
  h.withWorld hext (by rw [hdisk]; exact h.disk)

/-- What has to be assumed of a call: a keystore that is created with 16 bytes of salt is sealed. -/
def Secures (P : Primitives) (Accepts : PyStr → PyStr → Prop) (s : Client) : Client.Call → Prop
  | .create m password params hasPassphrase => params.saltLen = 16 → ∀ ks,
    Effect.outcome (Keystore.create P m password params hasPassphrase) s.world = .ok ks →
      ∃ e, m.entropy = .ok e ∧ Seals P Accepts ks.blob ⟨e, password⟩
  | _ => True

/-- The vault may answer the call as the library does, and the simulation goes on. -/
def Matched (P : Primitives) (L : Vault.Slack PyStr) (s : Client) (v : VaultState)
    (c : Client.Call) : Prop :=
  ∃ v', Vault.Step (Client.keyring P) L v c.toVault (s.exec P c).1.toVault v' ∧
    Simulates P L (s.exec P c).2 v'

theorem Matched.of_exec {c : Client.Call} {o : Client.Answer} {s' : Client} {v' : VaultState}
    (hexec : s.exec P c = (o, s'))
    (hstep : Vault.Step (Client.keyring P) L v c.toVault o.toVault v')
    (hs' : Simulates P L s' v') : Matched P L s v c := by
  refine ⟨v', ?_, ?_⟩
  · rw [hexec]
    exact hstep
  · rw [hexec]
    exact hs'

/-- A generated mnemonic is handed out, and only random bytes are missed afterwards. -/
theorem Simulates.generate (h : Simulates P L s v) (strength : ℤ) :
    Matched P L s v (.generate strength) := by
  -- generating touches neither cells nor files
  have hframe := h.of_extends
    (.of_eq ((inert_secrets.rules P).generate strength s.world)
      ((inert_flags.rules P).generate strength s.world))
    ((inert_disk.rules P).generate strength s.world)
  -- the library may raise or return; the vault allows both, whatever the state
  cases hout : Effect.outcome (Mnemonic.generate P strength) s.world with
  | error x => exact .of_exec (Client.exec_generate hout) .notGenerated hframe
  | ok m => exact .of_exec (Client.exec_generate hout) .generated hframe

theorem Client.Call.toVault_create {m : Mnemonic} {e : SecretBytes} (he : m.entropy = .ok e)
    {params : Argon2Params} (h16 : params.saltLen = 16) (password : PyStr) (hasPassphrase : Bool) :
    (Client.Call.create m password params hasPassphrase).toVault = .create (some e) password := by
  rw [toVault_create_of_eq h16, he]
  rfl

theorem Simulates.create (h : Simulates P L s v) {m : Mnemonic} {password : PyStr}
    {params : Argon2Params} {hasPassphrase : Bool}
    (hsecures : Secures P L.Accepts s (.create m password params hasPassphrase)) :
    Matched P L s v (.create m password params hasPassphrase) := by
  have hframe := h.of_extends (extends_create P m password params hasPassphrase s.world)
    ((diskRules P).create m password params hasPassphrase s.world)
  cases hout : Effect.outcome (Keystore.create P m password params hasPassphrase) s.world with
  | error x =>
    refine .of_exec (Client.exec_create_of_error hout) ?_ hframe
    obtain hcall | hcall := Client.Call.toVault_create_cases m password params hasPassphrase
    · rw [hcall]
      exact .notCreated
    · rw [hcall]
      exact .notCreatedLoose
  | ok ks =>
    have hexec := Client.exec_create_of_ok hout
    -- the vault gets a safe, which the blob is sealed for if it has 16 bytes of salt
    have hmatched : ∀ c : Option Safe, Origin P L.Accepts ks.blob c →
        Vault.Step (Client.keyring P) L v
          (Client.Call.create m password params hasPassphrase).toVault
          (Client.Answer.keystore (.ok ks)).toVault { v with safes := v.safes ++ [c] } →
        Matched P L s v (.create m password params hasPassphrase) := fun c horigin hstep =>
      .of_exec hexec hstep { hframe with keystores := forall₂_concat hframe.keystores horigin }
    by_cases h16 : params.saltLen = 16
    · obtain ⟨e, he, hseals⟩ := hsecures h16 ks hout
      refine hmatched (some ⟨e, password⟩) hseals ?_
      rw [Client.Call.toVault_create he h16]
      exact .created
    · refine hmatched none trivial ?_
      rw [Client.Call.toVault_create_of_ne h16]
      exact .createdLoose

theorem Simulates.save (h : Simulates P L s v) (i : ℕ) (path : PyStr) :
    Matched P L s v (.save i path) := by
  -- a number without a keystore: both sides refuse
  obtain ⟨hget, hget'⟩ | ⟨ks, c, hget, hget', horigin⟩ := getElem?_cases h.keystores i
  · exact .of_exec (Client.exec_save_of_none hget path) (.notSaved (.inl hget')) h
  · have hexec := Client.exec_save_of_some (P := P) hget path
    -- the three things that a write can have done
    obtain ⟨file, hlocate, hwrite⟩ | ⟨e, hwrite, hfails⟩ | ⟨e, file, n, hlocate, hwrite, hbreaks⟩ :=
      s.world.disk.write_cases path ks.blob
    · rw [hwrite] at hexec
      exact .of_exec hexec (.saved hget' (h.disk.locate_of_ok hlocate))
        -- the file of the vault is the one the path leads to, not the path itself
        (h.withWorld (.of_eq rfl rfl) (h.disk.put horigin file))
    · rw [hwrite] at hexec
      refine .of_exec hexec (.notSaved (.inr (h.disk.fails (fun hnone => ?_) hfails)))
        (h.withWorld (.of_eq rfl rfl) h.disk.used)
      refine Option.eq_none_iff_forall_ne_some.mpr fun file hfile => ?_
      exact hnone file (h.disk.ok_of_locate hfile)
    · -- of what is left in the file nothing is known
      have horigin : Origin P L.Accepts (ks.blob.take n) none := trivial
      rw [hwrite] at hexec
      exact .of_exec hexec (.brokenOff hget' (h.disk.locate_of_ok hlocate)
        (not_imp_comm.mp h.disk.whole hbreaks))
        (h.withWorld (.of_eq rfl rfl) (h.disk.put horigin file))

theorem Simulates.openFile (h : Simulates P L s v) (path : PyStr) :
    Matched P L s v (.openFile path) := by
  have hframe : Simulates P L (s.withWorld { s.world with disk := s.world.disk.used }) v :=
    h.withWorld (.of_eq rfl rfl) h.disk.used
  obtain ⟨file, blob, hlocate, hfile, hread⟩ | ⟨e, hread, hfails⟩ :=
    s.world.disk.read_cases .noSuchFile path
  -- the file is there, hence also in the vault, with the origin of what was read
  · have hrel := h.disk.files file
    rw [hfile] at hrel
    generalize hc : v.files file = c at hrel
    cases hrel with
    | @some _ c horigin =>
      exact .of_exec (Client.exec_openFile_of_ok (congrArg Prod.fst hread))
        (.opened (h.disk.locate_of_ok hlocate) hc)
        { hframe with contexts := forall₂_concat h.contexts horigin }
  · refine .of_exec (Client.exec_openFile_of_error (congrArg Prod.fst hread))
      (.notOpened (h.disk.fails (fun hnone file hfile => ?_) hfails)) hframe
    -- the file is missing, hence also in the vault
    have hrel := h.disk.files file
    rw [hnone file (h.disk.ok_of_locate hfile)] at hrel
    generalize hc : v.files file = c at hrel
    cases hrel with
    | none => rfl

theorem Simulates.context (h : Simulates P L s v) (blob : Bytes) :
    Matched P L s v (.context blob) :=
  -- of a blob that the client brings along nothing is known
  .of_exec rfl .loaded { h with contexts := forall₂_concat h.contexts trivial }

/-- A wallet that was just unlocked joins. -/
theorem Simulates.unlocked (h : Simulates P L s v) {ctx : KeystoreContext} {password : PyStr}
    {wallet : Wallet} {pw : SecretBytes} {u : UnpackedKeystore}
    (hout : Effect.outcome (ctx.unlock P password) s.world = .ok wallet)
    (hwallet : wallet = unlockedWallet P s.world u.seed)
    (hafter : Effect.after (ctx.unlock P password) s.world
      = unlockedWorld s.world pw (Envelope.headerCall ctx.blob pw) u.seed) :
    Simulates P L { s with session := s.session.exec P ctx (.unlock password) }
      { v with wallets := v.wallets ++ [⟨u.seed, false⟩] } := by
  -- the new cells are apart from those in use, the old ones are unchanged
  have hseparate : (s.session.exec P ctx (.unlock password)).Separate :=
    h.separate.exec_unlock password
  have hframe := h.of_extends (extends_unlock P ctx password s.world)
    ((diskRules P).unlock ctx password s.world)
  rw [Session.exec_unlock_of_ok hout] at hseparate ⊢
  refine { hframe with separate := hseparate, wallets := forall₂_concat hframe.wallets ⟨?_, ?_⟩ }
  -- what was read from the blob is in the new buffer, and its flag is not set
  · change wallet.cells (Effect.after (ctx.unlock P password) s.world) = _
    rw [hafter, hwallet]
    exact Prod.ext (read_unlockedWorld_seed P s.world pw (Envelope.headerCall ctx.blob pw) u.seed)
      (read_unlockedWorld_closed P s.world pw (Envelope.headerCall ctx.blob pw) u.seed)
  · rw [hwallet]
    rfl

theorem Simulates.unlock (h : Simulates P L s v) (i : ℕ) (password : PyStr) :
    Matched P L s v (.unlock i password) := by
  obtain ⟨hget, hget'⟩ | ⟨ctx, origin, hget, hget', horigin⟩ := getElem?_cases h.contexts i
  · refine .of_exec (Client.exec_unlock_of_none hget password) (.notUnlocked fun safe hsafe => ?_) h
    -- contexts have the same numbers on both sides
    cases hget'.symm.trans hsafe
  · have hexec := Client.exec_unlock_of_some (P := P) hget password
    cases hout : Effect.outcome (ctx.unlock P password) s.world with
    | error x =>
      rw [hout, Session.exec_unlock_of_error hout] at hexec
      refine .of_exec hexec (.notUnlocked fun safe hsafe => ?_)
        (h.of_extends (extends_unlock P ctx password s.world)
          ((diskRules P).unlock ctx password s.world))
      -- the password of the safe would have opened the blob
      rintro rfl
      obtain rfl := Option.some.inj (hget'.symm.trans hsafe)
      obtain ⟨pw, hasPassphrase, ts, hpw, hu⟩ := horigin.opens
      have hrun := KeystoreContext.run_unlock_eq_ok_iff.mpr
        ⟨pw, _, hpw, hu, rfl, (rfl : unlockedWorld s.world pw _ _ = _)⟩
      cases hout.symm.trans (Effect.outcome_of_ok hrun)
    | ok wallet =>
      obtain ⟨pw, u, hpw, hu, hwallet, hafter⟩ :=
        KeystoreContext.run_unlock_eq_ok_iff.mp (Effect.run_of_outcome hout)
      rw [hout] at hexec
      have hs' := h.unlocked hout hwallet hafter
      -- the blob was opened: either with the password of its safe, or with one that is confused
      -- with it
      cases origin with
      | none => exact .of_exec hexec (.unlockedForeign hget' u.seed) hs'
      | some safe =>
        by_cases hpassword : password = safe.password
        · subst hpassword
          -- a blob opens with a password in one way only, so the wallet holds the secret of the
          -- safe
          obtain ⟨pw', hasPassphrase, ts, hpw', hu'⟩ := horigin.opens
          obtain rfl := hpw.unique hpw'
          obtain rfl := hu'.unique hu
          exact .of_exec hexec (.unlocked hget') hs'
        · have haccepts := (horigin.accepts password pw u hpw hu).resolve_left hpassword
          exact .of_exec hexec (.confused hget' hpassword haccepts u.seed) hs'

namespace Account

/-- An account signs with its signer. -/
theorem outcome_sign (P : Primitives) (account : Account) (message : Bytes) (w : World) :
    Effect.outcome (account.sign P message) w
      = (account.signer.signWith P (w.random.take 32) message).map Signature.serialize := by
  rw [← Signer.outcome_sign]
  unfold Account.sign Effect.outcome
  rw [EStateM.run_bind]
  cases (account.signer.sign P message).run w <;> rfl

theorem keeps_sign (P : Primitives) {τ : Type} {part : World → τ} (h : RandomFree part)
    (account : Account) (message : Bytes) : Effect.Keeps part (account.sign P message) :=
  .bind (account.signer.keeps_sign P h message) fun _ => .pure _

end Account

/-- What a wallet answers depends on its secret and on whether it is closed. -/
theorem Holds.outcome_deriveAccount {w : World} {wallet : Wallet} {a : Vault.Wallet SecretBytes}
    (h : Holds P w wallet a) (path : DerivationPath) (scheme : PyStr) :
    Effect.outcome (wallet.deriveAccount P path scheme) w
      = if a.closed then Wallet.closedError else Wallet.accountOf P a.secret path scheme := by
  obtain ⟨secret, closed⟩ := a
  obtain ⟨hseed, hflag⟩ := Prod.ext_iff.mp h.cells_eq
  change w.secrets.read wallet.seed = _ at hseed
  change w.flags.read wallet.closed = _ at hflag
  -- the flag is looked at before the buffer is
  rw [Wallet.outcome_deriveAccount, hseed, hflag]
  cases closed <;> rfl

theorem Holds.outcome_signMessage {w : World} {wallet : Wallet} {a : Vault.Wallet SecretBytes}
    (h : Holds P w wallet a) (path : DerivationPath) (message : Bytes) (scheme : PyStr) :
    Effect.outcome (wallet.signMessage P path message scheme) w
      = if a.closed then Wallet.closedError
        else Wallet.signatureOf P a.secret path (w.random.take 32) message scheme := by
  obtain ⟨secret, closed⟩ := a
  obtain ⟨hseed, hflag⟩ := Prod.ext_iff.mp h.cells_eq
  change w.secrets.read wallet.seed = _ at hseed
  change w.flags.read wallet.closed = _ at hflag
  rw [Wallet.outcome_signMessage, hseed, hflag]
  cases closed <;> rfl

/-- Erasing the buffer of a wallet erases its secret, closed or not. -/
theorem Holds.zeroize_eq {w : World} {wallet : Wallet} {a : Vault.Wallet SecretBytes}
    (h : Holds P w wallet a) : (w.secrets.read wallet.seed).zeroize = a.secret.zeroize := by
  obtain ⟨secret, closed⟩ := a
  have hseed : w.secrets.read wallet.seed = _ := (Prod.ext_iff.mp h.cells_eq).1
  rw [hseed]
  cases closed with
  | true => exact SecretBytes.zeroize_zeroize secret
  | false => rfl

theorem Simulates.derive (h : Simulates P L s v) (i : ℕ) (path : DerivationPath)
    (scheme : PyStr) : Matched P L s v (.derive i path scheme) := by
  obtain ⟨hget, hget'⟩ | ⟨wallet, a, hget, hget', hholds⟩ := getElem?_cases h.wallets i
  · refine .of_exec (Client.exec_derive_of_none hget path scheme) (.notDerived fun x hx => ?_) h
    cases hget'.symm.trans hx
  -- what the library answers is read off the secret and the flag, which the vault knows
  · have hout := hholds.outcome_deriveAccount path scheme
    obtain ⟨secret, closed⟩ := a
    cases closed with
    | true =>
      -- a closed wallet: the vault allows no key
      refine .of_exec (Client.exec_derive_of_error hget hout) (.notDerived fun x hx => ?_) h
      cases hget'.symm.trans hx
    | false =>
      change _ = Wallet.accountOf P secret path scheme at hout
      cases haccount : Wallet.accountOf P secret path scheme with
      | error e =>
        rw [haccount] at hout
        refine .of_exec (Client.exec_derive_of_error hget hout) (.notDerived fun x hx => ?_) h
        -- no key at this path: the keyring has none either
        cases hget'.symm.trans hx
        simp only [Client.keyring, haccount]
        rfl
      | ok account =>
        rw [haccount] at hout
        refine .of_exec (Client.exec_derive_of_ok hget hout) (.derived hget' ?_)
          -- the new account is what its handle says it is
          { h with accounts := forall₂_concat h.accounts haccount }
        simp only [Client.keyring, haccount]
        rfl

theorem Simulates.sign (h : Simulates P L s v) (i : ℕ) (path : DerivationPath)
    (message : Bytes) (scheme : PyStr) : Matched P L s v (.sign i path message scheme) := by
  obtain ⟨hget, hget'⟩ | ⟨wallet, a, hget, hget', hholds⟩ := getElem?_cases h.wallets i
  · refine .of_exec (Client.exec_sign_of_none hget path message scheme)
      (.notSigned fun x hx => ?_) h
    cases hget'.symm.trans hx
  · have hexec := Client.exec_sign_of_some (P := P) hget path message scheme
    rw [hholds.outcome_signMessage] at hexec
    -- signing draws random bytes at most
    have hframe : Simulates P L
        (s.withWorld (Effect.after (wallet.signMessage P path message scheme) s.world)) v :=
      h.of_extends
        (.of_eq (wallet.keeps_signMessage (fun _ _ => rfl) message s.world)
          (wallet.keeps_signMessage (fun _ _ => rfl) message s.world))
        (wallet.keeps_signMessage (fun _ _ => rfl) message s.world)
    obtain ⟨secret, closed⟩ := a
    cases closed with
    | true =>
      refine .of_exec hexec (.notSigned fun x hx => ?_) hframe
      cases hget'.symm.trans hx
    | false =>
      change _ = (Client.Answer.signature (Wallet.signatureOf P secret path _ message scheme), _)
        at hexec
      cases hsig : Wallet.signatureOf P secret path (s.world.random.take 32) message scheme with
      | error e =>
        rw [hsig] at hexec
        refine .of_exec hexec (.notSigned fun x hx => ?_) hframe
        cases hget'.symm.trans hx
        exact ⟨s.world.random.take 32, by rw [hsig]; rfl⟩
      | ok sig =>
        rw [hsig] at hexec
        exact .of_exec hexec (.signed hget' ⟨s.world.random.take 32, by rw [hsig]; rfl⟩) hframe

theorem Simulates.accountSign (h : Simulates P L s v) (j : ℕ) (message : Bytes) :
    Matched P L s v (.accountSign j message) := by
  obtain ⟨hget, hget'⟩ | ⟨account, a, hget, hget', hreaches⟩ := getElem?_cases h.accounts j
  · refine .of_exec (Client.exec_accountSign_of_none hget message)
      (.notSignedWith fun x k hx => ?_) h
    cases hget'.symm.trans hx
  · have hexec := Client.exec_accountSign_of_some (P := P) hget message
    rw [Account.outcome_sign] at hexec
    have hframe : Simulates P L
        (s.withWorld (Effect.after (account.sign P message) s.world)) v :=
      h.of_extends
        (.of_eq (account.keeps_sign P (fun _ _ => rfl) message s.world)
          (account.keeps_sign P (fun _ _ => rfl) message s.world))
        (account.keeps_sign P (fun _ _ => rfl) message s.world)
    obtain ⟨secret, path, scheme⟩ := a
    -- the signer of the account is the one the secret leads to
    have hsig : Wallet.signatureOf P secret path (s.world.random.take 32) message scheme
        = account.signer.signWith P (s.world.random.take 32) message := by
      unfold Wallet.signatureOf
      rw [hreaches]
      rfl
    cases hout : account.signer.signWith P (s.world.random.take 32) message with
    | error e =>
      rw [hout] at hexec hsig
      refine .of_exec hexec (.notSignedWith fun x k hx => ?_) hframe
      cases hget'.symm.trans hx
      exact ⟨s.world.random.take 32, by rw [hsig]; rfl⟩
    | ok sig =>
      rw [hout] at hexec hsig
      exact .of_exec hexec (.signedWith hget' ⟨s.world.random.take 32, by rw [hsig]; rfl⟩) hframe

theorem Simulates.close (h : Simulates P L s v) (i : ℕ) :
    Matched P L s v (.close i) := by
  obtain ⟨hget, hget'⟩ | ⟨wallet, a, hget, hget', hholds⟩ := getElem?_cases h.wallets i
  · exact .of_exec (Client.exec_close_of_none hget) (.notClosed hget') h
  · have hseparate : (s.session.exec P ⟨[]⟩ (.close i)).Separate := h.separate.exec (.close i)
    have hsession : s.session.exec P ⟨[]⟩ (.close i)
        = { s.session with world := Effect.after wallet.close s.world } :=
      Session.execOn_of_some hget
    have hcells : ∀ {j : ℕ} {other : Wallet}, s.session.wallets[j]? = some other →
        other.cells (s.session.exec P ⟨[]⟩ (.close i)).world
          = if Session.Call.close i = .close j
            then ((s.world.secrets.read other.seed).zeroize, true) else other.cells s.world :=
      fun hj => h.separate.cells_exec hj (.close i)
    rw [hsession] at hseparate hcells
    refine .of_exec (Client.exec_close_of_some hget) (.closed hget')
      -- closing one wallet: its own cells are erased, those of the others are where they were
      { h with separate := hseparate, wallets := forall₂_iff_getElem?.mpr fun j => ?_ }
    have hj := forall₂_iff_getElem?.mp h.wallets j
    change Option.Rel _ s.session.wallets[j]? _
    by_cases hij : i = j
    · subst hij
      rw [hget, List.getElem?_set_self (List.getElem?_eq_some_iff.mp hget').1]
      refine .some ⟨(hcells hget).trans ?_, hholds.mnemonic_eq⟩
      rw [if_pos rfl, hholds.zeroize_eq]
      rfl
    · rw [List.getElem?_set_ne hij]
      -- another wallet has other cells, by separation
      generalize hgetj : s.session.wallets[j]? = x at hj ⊢
      generalize v.wallets[j]? = y at hj ⊢
      cases hj with
      | none => exact .none
      | some hother =>
        refine .some ⟨(hcells hgetj).trans ?_, hother.mnemonic_eq⟩
        rw [if_neg fun hc => hij (Session.Call.close.inj hc)]
        exact hother.cells_eq

/-- **One call.** Whatever the library answers, the vault may answer. -/
theorem Simulates.exec (h : Simulates P L s v) (c : Client.Call)
    (hsecures : Secures P L.Accepts s c) : Matched P L s v c := by
  -- one case for each call of the library
  cases c with
  | generate strength => exact h.generate strength
  | create m password params hasPassphrase => exact h.create hsecures
  | save i file => exact h.save i file
  | openFile file => exact h.openFile file
  | context blob => exact h.context blob
  | unlock i password => exact h.unlock i password
  | derive i path scheme => exact h.derive i path scheme
  | sign i path message scheme => exact h.sign i path message scheme
  | accountSign j message => exact h.accountSign j message
  | close i => exact h.close i

/-- What is in the files at first: blobs of unknown origin. -/
def foreignVault (d : PyDisk) : VaultState :=
  { Vault.State.empty fun path => (d.locate path).toOption with
    files := fun file => (d.files file).map fun _ => none }

theorem simulates_start {L : Vault.Slack PyStr} {w : World}
    (hreliable : ¬ L.Fails → w.disk.Reliable) (hwhole : ¬ L.Breaks → w.disk.Whole) :
    Simulates P L (.start w) (foreignVault w.disk) where
  separate := Session.separate_start w
  keystores := .nil
  disk :=
    { locate_eq := fun _ => rfl
      files := by
        intro file
        change Option.Rel _ (w.disk.files file) ((w.disk.files file).map fun _ => none)
        -- what is in a file at first has no known origin, and every file is in the vault
        cases w.disk.files file with
        | none => exact .none
        | some blob => exact .some trivial
      reliable := hreliable
      whole := hwhole }
  contexts := .nil
  wallets := .nil
  accounts := .nil

/-! ### When keystores are sealed -/

/-- With a cipher that undoes its encryption every keystore opens with its password. -/
theorem secures_of_undoes (hP : P.AesGcmUndoes) {Accepts : PyStr → PyStr → Prop}
    {c : Client.Call} (haccepts : ∀ m password params hasPassphrase ks,
      c = .create m password params hasPassphrase → params.saltLen = 16 →
      Effect.outcome (Keystore.create P m password params hasPassphrase) s.world = .ok ks →
      ∀ q qw u, Encodes q qw → Envelope.Unpacks P ks.blob qw u → Accepts password q) :
    Secures P Accepts s c := by
  cases c with
  | create m password params hasPassphrase =>
    -- what is asked is the conclusion of creating: the entropy is read, packed and sealed
    intro h16 ks hks
    obtain ⟨-, pw, e, hpw, he, sealing, -, -, rfl⟩ :=
      Keystore.sealing_of_run_create (Effect.run_of_outcome hks)
    exact ⟨e, he, sealing.seals h16 (sealing.opens_of_undoes hP) hpw
      (haccepts m password params hasPassphrase _ rfl h16 hks)⟩
  | _ => trivial

/-- A keystore that is created now would be locked: what is sealed with the coming random bytes
opens with its key, and with no key of another password that is tried. -/
def Client.Locked (P : Primitives) (tried : PyStr → Prop) (s : Client) : Client.Call → Prop
  | .create m password params hasPassphrase => params.saltLen = 16 ∧
    ∀ pw e, Encodes password pw → m.entropy = .ok e →
      ∀ sealing : Envelope.Sealing P e pw params hasPassphrase s.world.clock.head,
        sealing.salt = s.world.random.take params.saltLen.toNat →
        sealing.nonce = (s.world.random.drop params.saltLen.toNat).take 12 →
        sealing.Opens ∧ sealing.LocksOut (Wraps tried)
  | _ => True

theorem secures_of_locked {tried : PyStr → Prop} {c : Client.Call} (hc : s.Locked P tried c) :
    Secures P (fun _ q => ¬ tried q) s c := by
  cases c with
  | create m password params hasPassphrase =>
    -- `LocksOut` is about the very bytes that creating draws
    rintro - ks hks
    obtain ⟨-, pw, e, hpw, he, sealing, hsalt, hnonce, rfl⟩ :=
      Keystore.sealing_of_run_create (Effect.run_of_outcome hks)
    obtain ⟨hopens, hlocks⟩ := hc.2 pw e hpw he sealing hsalt hnonce
    exact ⟨e, he, hlocks.seals hc.1 hopens hpw⟩
  | _ => trivial

end Step

end KeystoneCrypto
