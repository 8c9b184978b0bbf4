import KeystoneCrypto.Keystore.Guarantees

/-!
# What a keystore gives away

Clients that do not try the password of a keystore can save it, open it in this process or in
another one, try other passwords on it and do anything else besides. Two runs are compared, in which
two mnemonics of the same length were stored under the same password. For primitives under which
both sealings are locked, all answers are the same, up to the bytes of the ciphertext: header and
length of the blobs agree, every other password is refused in the same way, and no object depends on
which mnemonic was stored (`view_create`).

The proof runs the two side by side. `Indistinct` relates them: their worlds differ in the file
system only (`DisksApart`), and blobs stand under the same numbers and in the same files that look
alike to whoever tries the passwords tried in the run (`LookAlike`).

* Creating establishes the relation (`Indistinct.of_create`): salt and nonce are drawn before the
  mnemonics matter, so both sealings have one header and one length, and locked sealings refuse
  every other password in the same way (`Envelope.Sealing.LocksOut.lookAlike`).
* Each call keeps it and answers alike (`Indistinct.exec`). Apart from `save` and `open` no method
  looks at the file system, which passes from the statements of a method to the whole
  (`disksApartRules`); the two others are about `DisksAlike`. `unlock` is the only call that looks
  into a blob, and it is made with a password that was tried.
* Whole runs of several processes follow by induction (`Processes.map_trace_eq`).

Accesses to files may fail, in both runs alike, but no write may be broken off (`Disk.Whole`): two
blobs that look alike need not be cut into pieces that do.
-/

namespace KeystoneCrypto

/-! ### Blobs that look alike -/

/-- What a refusal says depends on the length of the ciphertext at most. -/
def Primitives.RefusesAlike (P : Primitives) : Prop :=
  ∀ key nonce ciphertext ciphertext' aad text text', key.length = 32 → nonce.length = 12 →
    ciphertext.length = ciphertext'.length →
    P.aesGcmDecrypt key nonce ciphertext aad = .error text →
    P.aesGcmDecrypt key nonce ciphertext' aad = .error text' → text = text'

/-- Two ciphertexts that the cipher does not open are reported in the same way. -/
theorem decrypt_eq_of_refused {P : Primitives} (hP : P.RefusesAlike) {key : SecretBytes}
    {nonce ciphertext ciphertext' aad : Bytes} (hlen : ciphertext.length = ciphertext'.length)
    (h : ∀ data, P.aesGcmDecrypt key.buf nonce ciphertext aad ≠ .ok data)
    (h' : ∀ data, P.aesGcmDecrypt key.buf nonce ciphertext' aad ≠ .ok data) :
    decrypt P key nonce ciphertext aad = decrypt P key nonce ciphertext' aad := by
  unfold decrypt asKey nonceLen keyLen
  -- the lengths are checked before the cipher is called, and they are equal on both sides
  by_cases hnonce : nonce.length = 12
  · rw [raiseIf_neg (not_not.mpr hnonce)]
    by_cases hkey : key.buf.length = 32
    · rw [raiseIf_neg (not_not.mpr hkey)]
      simp only [Effect.ok_bind, pure, Except.pure]
      cases hdec : P.aesGcmDecrypt key.buf nonce ciphertext aad with
      | ok data => exact absurd hdec (h data)
      | error text =>
        cases hdec' : P.aesGcmDecrypt key.buf nonce ciphertext' aad with
        | ok data => exact absurd hdec' (h' data)
        | error text' =>
          -- both refusals are the cipher's own, so they carry one text
          obtain rfl := hP _ _ _ _ _ _ _ hkey hnonce hlen hdec hdec'
          rfl
    · rw [raiseIf_pos hkey]
      rfl
  · rw [raiseIf_pos hnonce]
    rfl

namespace Envelope

variable {P : Primitives} {e e' pw : SecretBytes} {params : Argon2Params} {flag flag' : Bool}
  {ts ts' : ℤ} {s : Sealing P e pw params flag ts} {s' : Sealing P e' pw params flag' ts'}

theorem Sealing.ciphertext_length_eq (s : Sealing P e pw params flag ts)
    (s' : Sealing P e' pw params flag' ts') (hlen : e.buf.length = e'.buf.length) :
    s.ciphertext.length = s'.ciphertext.length := by
  unfold Sealing.ciphertext
  rw [P.aesGcmEncrypt_length, P.aesGcmEncrypt_length, s.plaintext_length, s'.plaintext_length, hlen]

/-- **Other passwords** are refused by both sealings in the same way. -/
theorem Sealing.LocksOut.unpack_eq {tried : SecretBytes → Prop} (hP : P.RefusesAlike)
    (h16 : params.saltLen = 16) (hs : s.LocksOut tried) (hs' : s'.LocksOut tried)
    (hsalt : s.salt = s'.salt) (hnonce : s.nonce = s'.nonce)
    (hlen : e.buf.length = e'.buf.length) {q : SecretBytes} (htried : tried q) (hq : q ≠ pw) :
    unpack P s.blob q = unpack P s'.blob q := by
  funext w
  change (unpack P s.blob q).run w = (unpack P s'.blob q).run w
  rw [run_unpack (s.readable h16), run_unpack (s'.readable h16)]
  unfold headerCall
  rw [s.header_blob h16, s'.header_blob h16]
  rw [hsalt, hnonce]
  -- both headers ask for the same key, which may not exist
  cases hkey : derivedKey P (argon2Call q params s'.salt) with
  | error x => rfl
  | ok key =>
    have hrefused := hs.refused htried hq (hsalt ▸ hkey)
    have hrefused' := hs'.refused htried hq hkey
    rw [hnonce] at hrefused
    -- the two headers differ in the ciphertext, and neither is opened
    have hopen : openHeader P ⟨1, 1, params, s'.salt, s'.nonce, s.ciphertext⟩ key
        = openHeader P ⟨1, 1, params, s'.salt, s'.nonce, s'.ciphertext⟩ key := by
      unfold openHeader
      rw [aad_toNat, Effect.ok_bind, Effect.ok_bind]
      rw [decrypt_eq_of_refused hP (s.ciphertext_length_eq s' hlen) hrefused hrefused']
    rw [Effect.ok_bind, Effect.ok_bind, hopen]

end Envelope

section Wrapped

variable {α β : Type} {password : PyStr} {rest : α → Py β}

/-- A call with a wrapper depends on what its work does with the wrapper. -/
theorem withPassword_congr {body body' : ℕ → Py α} (h : ∀ pw, Encodes password pw → ∀ w : World,
      (body w.secrets.next).run (w.wrap pw) = (body' w.secrets.next).run (w.wrap pw)) :
    withPassword password body rest = withPassword password body' rest := by
  unfold withPassword
  cases hb : password.encodeUtf8 with
  | error x => rfl
  | ok b =>
    change ((liftM (SecretBytes.new b) : Py SecretBytes) >>= fun pw => wrapped pw body rest)
      = (liftM (SecretBytes.new b) : Py SecretBytes) >>= fun pw => wrapped pw body' rest
    cases hpw : SecretBytes.new b with
    | error x => rfl
    | ok pw =>
      change wrapped pw body rest = wrapped pw body' rest
      have hpw : Encodes password pw := by
        rw [Encodes, hb, SecretBytes.new_eq_ok_iff.mp hpw]
      funext w
      have hstart : (newSecret pw).run w = .ok w.secrets.next (w.wrap pw) := rfl
      -- the wrapper starts in one cell on both sides, and what comes after the body is the same
      change (wrapped pw body rest).run w = (wrapped pw body' rest).run w
      unfold wrapped
      rw [Effect.run_bind_of_ok hstart, Effect.run_bind_of_ok hstart, EStateM.run_bind,
        EStateM.run_bind, h pw hpw w]

end Wrapped

/-- Header and length of a blob. -/
def redact (blob : Bytes) : Bytes :=
  blob.take headerLen ++ List.replicate (blob.length - headerLen) 0

/-- The blobs have one header and one length, and the passwords that are tried are answered in the
same way. -/
structure LookAlike (P : Primitives) (tried : PyStr → Prop) (blob blob' : Bytes) : Prop where
  redact_eq : redact blob = redact blob'
  unlock_eq : ∀ q, tried q →
    KeystoreContext.unlock P ⟨blob⟩ q = KeystoreContext.unlock P ⟨blob'⟩ q

section LookAlike

variable {P : Primitives} {tried : PyStr → Prop} {password : PyStr}

theorem LookAlike.refl (blob : Bytes) : LookAlike P tried blob blob := ⟨rfl, fun _ _ => rfl⟩

variable {e e' pw : SecretBytes} {params : Argon2Params} {flag flag' : Bool} {ts ts' : ℤ}
  {s : Envelope.Sealing P e pw params flag ts} {s' : Envelope.Sealing P e' pw params flag' ts'}

theorem redact_blob (h16 : params.saltLen = 16) (hsalt : s.salt = s'.salt)
    (hnonce : s.nonce = s'.nonce) (hlen : e.buf.length = e'.buf.length) :
    redact s.blob = redact s'.blob := by
  -- magic, versions, parameters, salt and nonce fill the header exactly
  have hkdf : s.kdf = s'.kdf := Except.ok.inj (s.kdf_eq.symm.trans s'.kdf_eq)
  have hct := s.ciphertext_length_eq s' hlen
  have hlength : s.blob.length = s'.blob.length := by
    rw [s.blob_length, s'.blob_length, hsalt, hct]
  have htake : s.blob.take headerLen = s'.blob.take headerLen := by
    have hfront : ∀ front : Bytes, front = magic ++ [1, 1] ++ s'.kdf ++ s'.salt ++ s'.nonce →
        front.length = headerLen := by
      have lsalt := s'.salt_length
      rintro _ rfl
      simp only [List.length_append, s'.kdf_length, s'.nonce_length, List.length_cons,
        List.length_nil, show magic.length = 4 from rfl, headerLen, nonceLen]
      omega
    unfold Envelope.Sealing.blob
    rw [hkdf, hsalt, hnonce, List.take_left' (hfront _ rfl), List.take_left' (hfront _ rfl)]
  unfold redact
  rw [hlength, htake]

/-- **Locked sealings** of two secrets of one length, with one salt and one nonce, look alike to
whoever does not try their password. -/
theorem Envelope.Sealing.LocksOut.lookAlike (hP : P.RefusesAlike) (h16 : params.saltLen = 16)
    (hs : s.LocksOut (Wraps tried)) (hs' : s'.LocksOut (Wraps tried)) (hsalt : s.salt = s'.salt)
    (hnonce : s.nonce = s'.nonce) (hlen : e.buf.length = e'.buf.length) (hpw : Encodes password pw)
    (hpassword : ¬ tried password) : LookAlike P tried s.blob s'.blob where
  redact_eq := redact_blob h16 hsalt hnonce hlen
  unlock_eq := by
    intro q hq
    rw [KeystoreContext.unlock_eq, KeystoreContext.unlock_eq]
    -- the calls differ in the blob, which is what the wrapper hands to `unpack`
    refine withPassword_congr fun qw hqw w => ?_
    have hne : qw ≠ pw := by
      rintro rfl
      exact hpassword (hpw.inj hqw ▸ hq)
    rw [run_unpackWrapped, run_unpackWrapped]
    exact congrArg (fun x : Py UnpackedKeystore => x.run (w.wrap qw))
      (hs.unpack_eq hP h16 hs' hsalt hnonce hlen ⟨q, hq, hqw⟩ hne)

end LookAlike

/-! ### Worlds that differ in the file system -/

/-- The file systems of two worlds are related, and the worlds agree otherwise. -/
def DisksApart (F : PyDisk → PyDisk → Prop) (w w' : World) : Prop :=
  ∃ disk', w' = { w with disk := disk' } ∧ F w.disk disk'

section DisksApart

variable {α : Type} {F : PyDisk → PyDisk → Prop}

/-- An effect that does not look at the file system, and leaves it as it is. -/
theorem respects_of_run {x : Py α} {out : World → α} {next : World → World}
    (hrun : ∀ w, x.run w = .ok (out w) (next w))
    (h : ∀ w disk, out { w with disk } = out w ∧
      next { w with disk } = { next w with disk }) :
    Effect.Respects (DisksApart F) x := by
  rintro w _ ⟨disk', rfl, hF⟩
  obtain ⟨hout, hnext⟩ := h w disk'
  rw [Effect.outcome_of_ok (hrun w), Effect.outcome_of_ok (hrun _), Effect.after_of_ok (hrun w),
    Effect.after_of_ok (hrun _), hout, hnext]
  refine ⟨rfl, disk', rfl, ?_⟩
  -- with the files it found, the effect leaves the files it found
  have hkept := congrArg World.disk (h w w.disk).2
  exact hkept ▸ hF

/-- Apart from `open` and `save`, no method looks at the file system. -/
theorem disksApartRules (P : Primitives) (F : PyDisk → PyDisk → Prop) :
    CallRules P fun {α} (x : Py α) => Effect.Respects (DisksApart F) x where
  __ := Effect.compositional_respects (DisksApart F)
  tokenBytes n := by
    by_cases hn : 0 ≤ n
    · exact respects_of_run (fun w => run_tokenBytes w hn) fun _ _ => ⟨rfl, rfl⟩
    -- a negative count is refused before random bytes are drawn
    · rintro w _ ⟨disk', rfl, hF⟩
      unfold tokenBytes
      rw [raiseIf_pos (by omega)]
      exact ⟨rfl, disk', rfl, hF⟩
  time := respects_of_run run_time fun _ _ => ⟨rfl, rfl⟩
  hashSecretRaw call := by
    rintro w _ ⟨disk', rfl, hF⟩
    unfold Effect.outcome Effect.after
    rw [run_hashSecretRaw, run_hashSecretRaw]
    cases P.hashSecretRaw call <;> exact ⟨rfl, disk', rfl, hF⟩
  newSecret s := respects_of_run (fun w => run_newSecret w s) fun _ _ => ⟨rfl, rfl⟩
  readSecret r := respects_of_run (fun w => run_readSecret w r) fun _ _ => ⟨rfl, rfl⟩
  zeroizeSecret r := respects_of_run (fun w => run_zeroizeSecret w r) fun _ _ => ⟨rfl, rfl⟩
  newFlag b := respects_of_run (fun w => run_newFlag w b) fun _ _ => ⟨rfl, rfl⟩
  readFlag r := respects_of_run (fun w => run_readFlag w r) fun _ _ => ⟨rfl, rfl⟩
  writeFlag r b := respects_of_run (fun w => run_writeFlag w r b) fun _ _ => ⟨rfl, rfl⟩

end DisksApart

/-! ### Two clients -/

/-- An answer, up to the bytes of the ciphertext in it. -/
def Client.Answer.redact : Client.Answer → Client.Answer
  | .keystore (.ok ks) => .keystore (.ok { ks with blob := KeystoneCrypto.redact ks.blob })
  -- the blob of a context is what the file held
  | .context (.ok ctx) => .context (.ok ⟨KeystoneCrypto.redact ctx.blob⟩)
  | o => o

/-- What the clients get to see of a run. -/
def Machine.view {π : Type} [DecidableEq π] (P : Primitives) (S : Machine π)
    (calls : List (π × Client.Call)) : List Client.Answer :=
  (Trace.trace (Machine.exec P) S calls).map fun e => e.2.redact

section Clients

variable (P : Primitives) (tried : PyStr → Prop)

/-- The keystores agree, up to blobs that look alike. -/
structure KeystoresAlike (ks ks' : Keystore) : Prop where
  blob : LookAlike P tried ks.blob ks'.blob
  params_eq : ks.params = ks'.params
  hasPassphrase_eq : ks.hasPassphrase = ks'.hasPassphrase
  createdAt_eq : ks.createdAt = ks'.createdAt

/-- Paths lead to the same files, which hold two blobs that look alike or do not exist, and the same
accesses fail. -/
structure DisksAlike (d d' : PyDisk) : Prop where
  locate_eq : d.locate = d'.locate
  faults_eq : d.faults = d'.faults
  whole : d.Whole
  files : ∀ file, Option.Rel (LookAlike P tried) (d.files file) (d'.files file)

/-- The clients hold the same, up to blobs that look alike. -/
structure Indistinct (s s' : Client) : Prop where
  world : DisksApart (DisksAlike P tried) s.world s'.world
  wallets_eq : s.session.wallets = s'.session.wallets
  keystores : List.Forall₂ (KeystoresAlike P tried) s.keystores s'.keystores
  contexts : List.Forall₂
    (fun ctx ctx' => LookAlike P tried (KeystoreContext.blob ctx) (KeystoreContext.blob ctx'))
    s.contexts s'.contexts
  accounts_eq : s.accounts = s'.accounts

/-- To a call both clients get the same answer, and they stay indistinct. -/
def AnsweredAlike (s s' : Client) (c : Client.Call) : Prop :=
  (s.exec P c).1.redact = (s'.exec P c).1.redact ∧
    Indistinct P tried (s.exec P c).2 (s'.exec P c).2

end Clients

section Step

variable {P : Primitives} {tried : PyStr → Prop} {s s' : Client}

theorem KeystoresAlike.refl (ks : Keystore) : KeystoresAlike P tried ks ks :=
  ⟨.refl ks.blob, rfl, rfl, rfl⟩

theorem KeystoresAlike.redact_eq {ks ks' : Keystore} (h : KeystoresAlike P tried ks ks') :
    (Client.Answer.keystore (.ok ks)).redact = (Client.Answer.keystore (.ok ks')).redact := by
  obtain ⟨blob, params, hasPassphrase, createdAt⟩ := ks
  obtain ⟨hblob, hparams, hflag, hcreated⟩ := h
  cases hparams
  cases hflag
  cases hcreated
  exact congrArg (fun b => Client.Answer.keystore (.ok ⟨b, _, _, _⟩)) hblob.redact_eq

section Disks

variable {d d' : PyDisk}

theorem DisksAlike.refl (h : d.Whole) : DisksAlike P tried d d where
  locate_eq := rfl
  faults_eq := rfl
  whole := h
  files := by
    intro file
    cases d.files file with
    | none => exact .none
    | some blob => exact .some (.refl blob)

theorem DisksAlike.used (h : DisksAlike P tried d d') :
    DisksAlike P tried d.used d'.used where
  locate_eq := h.locate_eq
  faults_eq := congrArg Stream'.tail h.faults_eq
  whole := h.whole.of_tail rfl
  files := h.files

theorem DisksAlike.put (h : DisksAlike P tried d d') (file : PyStr) {blob blob' : Bytes}
    (hblob : LookAlike P tried blob blob') :
    DisksAlike P tried (d.put file blob) (d'.put file blob') where
  locate_eq := h.locate_eq
  faults_eq := congrArg Stream'.tail h.faults_eq
  whole := h.whole.of_tail rfl
  files := by
    intro other
    -- what the paths have in common they keep, and one file is written on both sides
    change Option.Rel _ (Function.update d.files file (some blob) other)
      (Function.update d'.files file (some blob') other)
    by_cases hother : other = file
    · subst hother
      simp only [Function.update_self]
      exact .some hblob
    · simp only [Function.update_of_ne hother]
      exact h.files other

/-- Two blobs that look alike are written, or neither is. -/
theorem DisksAlike.write (h : DisksAlike P tried d d') (path : PyStr) {blob blob' : Bytes}
    (hblob : LookAlike P tried blob blob') :
    (d.write path blob).1 = (d'.write path blob').1 ∧
      DisksAlike P tried (d.write path blob).2 (d'.write path blob').2 := by
  unfold Disk.write
  rw [← h.locate_eq, ← h.faults_eq]
  -- the same fault strikes on both sides, and one file is meant
  cases hfault : d.faults.head with
  | none =>
    cases hlocate : d.locate path with
    | error e => exact ⟨rfl, h.used⟩
    | ok file => exact ⟨rfl, h.put file hblob⟩
  | some fault =>
    cases hlocate : d.locate path with
    | error e => exact ⟨rfl, h.used⟩
    | ok file =>
      -- a write that breaks off would leave pieces of the two blobs
      simp only [h.whole 0 fault hfault]
      exact ⟨trivial, h.used⟩

/-- Two blobs that look alike are read, or the same is raised. -/
theorem DisksAlike.read (h : DisksAlike P tried d d') (missing : IoError) (path : PyStr) :
    (∃ e, (d.read missing path).1 = .error e ∧ (d'.read missing path).1 = .error e) ∨
      ∃ blob blob', (d.read missing path).1 = .ok blob ∧ (d'.read missing path).1 = .ok blob' ∧
        LookAlike P tried blob blob' := by
  unfold Disk.read
  rw [← h.locate_eq, ← h.faults_eq]
  cases d.faults.head with
  | some fault => exact .inl ⟨fault.error, rfl, rfl⟩
  -- the files of one number are both there or both missing
  | none =>
    cases d.locate path with
    | error e => exact .inl ⟨e, rfl, rfl⟩
    | ok file =>
      obtain ⟨hfile, hfile'⟩ | ⟨blob, blob', hfile, hfile', hblob⟩ := rel_cases (h.files file)
      · exact .inl ⟨missing, by simp only [hfile], by simp only [hfile']⟩
      · exact .inr ⟨blob, blob', by simp only [hfile], by simp only [hfile'], hblob⟩

end Disks

theorem AnsweredAlike.of_exec {c : Client.Call} {o o' : Client.Answer} {t t' : Client}
    (hexec : s.exec P c = (o, t)) (hexec' : s'.exec P c = (o', t')) (ho : o.redact = o'.redact)
    (ht : Indistinct P tried t t') : AnsweredAlike P tried s s' c := by
  unfold AnsweredAlike
  rw [hexec, hexec']
  exact ⟨ho, ht⟩

/-- A method that does not look at the file system returns the same to both clients. -/
theorem Indistinct.respects (h : Indistinct P tried s s') {α : Type} {x : Py α}
    (hx : Effect.Respects (DisksApart (DisksAlike P tried)) x) :
    Effect.outcome x s.world = Effect.outcome x s'.world ∧
      Indistinct P tried (s.withWorld (Effect.after x s.world))
        (s'.withWorld (Effect.after x s'.world)) := by
  -- the objects are not touched by the method, so only the worlds are to be compared
  obtain ⟨hout, hafter⟩ := hx s.world s'.world h.world
  exact ⟨hout, { h with world := hafter }⟩

theorem Indistinct.generate (h : Indistinct P tried s s') (strength : ℤ) :
    AnsweredAlike P tried s s' (.generate strength) := by
  obtain ⟨hout, hnext⟩ := h.respects ((disksApartRules P _).generate strength)
  exact .of_exec (Client.exec_generate rfl) (Client.exec_generate hout.symm) rfl hnext

theorem Indistinct.create (h : Indistinct P tried s s') (m : Mnemonic) (q : PyStr)
    (params : Argon2Params) (hasPassphrase : Bool) :
    AnsweredAlike P tried s s' (.create m q params hasPassphrase) := by
  obtain ⟨hout, hnext⟩ := h.respects ((disksApartRules P _).create m q params hasPassphrase)
  cases hs : Effect.outcome (Keystore.create P m q params hasPassphrase) s.world with
  | error x =>
    exact .of_exec (Client.exec_create_of_error hs)
      (Client.exec_create_of_error (hout.symm.trans hs)) rfl hnext
  -- the same keystore joins on both sides, with the blob it has
  | ok ks =>
    exact .of_exec (Client.exec_create_of_ok hs) (Client.exec_create_of_ok (hout.symm.trans hs)) rfl
      { hnext with keystores := forall₂_concat h.keystores (.refl ks) }

theorem Indistinct.save (h : Indistinct P tried s s') (i : ℕ) (path : PyStr) :
    AnsweredAlike P tried s s' (.save i path) := by
  obtain ⟨hget, hget'⟩ | ⟨ks, ks', hget, hget', hks⟩ := getElem?_cases h.keystores i
  · exact .of_exec (Client.exec_save_of_none hget path) (Client.exec_save_of_none hget' path) rfl h
  · obtain ⟨disk', hworld, hdisk⟩ := h.world
    obtain ⟨hout, hnext⟩ := hdisk.write path hks.blob
    have hexec' := Client.exec_save_of_some (P := P) hget' path
    -- the other client's file system takes the other blob and answers as this one does
    rw [hworld, ← hout] at hexec'
    exact .of_exec (Client.exec_save_of_some hget path) hexec' rfl
      { h with world := ⟨_, rfl, hnext⟩ }

theorem Indistinct.openFile (h : Indistinct P tried s s') (path : PyStr) :
    AnsweredAlike P tried s s' (.openFile path) := by
  obtain ⟨disk', hworld, hdisk⟩ := h.world
  have hread := hdisk.read .noSuchFile path
  have hdisk' : disk' = s'.world.disk := by rw [hworld]
  rw [hdisk'] at hread hdisk
  have hnext : DisksApart (DisksAlike P tried) { s.world with disk := s.world.disk.used }
      { s'.world with disk := s'.world.disk.used } := by
    -- the two worlds agree except in the file system, which has used up one access on both sides
    refine ⟨s'.world.disk.used, ?_, hdisk.used⟩
    rw [hworld]
  obtain ⟨e, hs, hs'⟩ | ⟨blob, blob', hs, hs', hblob⟩ := hread
  · exact .of_exec (Client.exec_openFile_of_error hs) (Client.exec_openFile_of_error hs') rfl
      { h with world := hnext }
  · exact .of_exec (Client.exec_openFile_of_ok hs) (Client.exec_openFile_of_ok hs')
      (congrArg (fun b => Client.Answer.context (.ok ⟨b⟩)) hblob.redact_eq)
      { h with world := hnext, contexts := forall₂_concat h.contexts hblob }

theorem Indistinct.context (h : Indistinct P tried s s') (blob : Bytes) :
    AnsweredAlike P tried s s' (.context blob) :=
  .of_exec rfl rfl rfl { h with contexts := forall₂_concat h.contexts (.refl blob) }

/-- **The passwords that are tried** do not tell the contexts apart. -/
theorem Indistinct.unlock (h : Indistinct P tried s s') (i : ℕ) {q : PyStr}
    (hq : tried q) : AnsweredAlike P tried s s' (.unlock i q) := by
  obtain ⟨hget, hget'⟩ | ⟨ctx, ctx', hget, hget', hctx⟩ := getElem?_cases h.contexts i
  · exact .of_exec (Client.exec_unlock_of_none hget q) (Client.exec_unlock_of_none hget' q) rfl h
  · -- the other blob is refused in the same way, so both clients make one and the same call
    obtain ⟨hout, hnext⟩ := h.respects ((disksApartRules P _).unlock ctx q)
    have hunlock : ctx'.unlock P q = ctx.unlock P q := (hctx.unlock_eq q hq).symm
    have hexec := Client.exec_unlock_of_some (P := P) hget q
    have hexec' := Client.exec_unlock_of_some (P := P) hget' q
    rw [hunlock, ← hout] at hexec'
    refine .of_exec hexec hexec' rfl { h with world := ?_, wallets_eq := ?_ }
    · change DisksApart _ (Effect.after (ctx.unlock P q) s.world)
        (Effect.after (ctx'.unlock P q) s'.world)
      rw [hunlock]
      exact hnext.world
    · change s.session.wallets ++ (Effect.outcome (ctx.unlock P q) s.world).toOption.toList
        = s'.session.wallets ++ (Effect.outcome (ctx'.unlock P q) s'.world).toOption.toList
      rw [hunlock, ← hout, h.wallets_eq]

theorem Indistinct.derive (h : Indistinct P tried s s') (i : ℕ) (path : DerivationPath)
    (scheme : PyStr) : AnsweredAlike P tried s s' (.derive i path scheme) := by
  -- wallets are equal on both sides, as no call could tell the clients apart when they were made
  cases hget : s.session.wallets[i]? with
  | none =>
    have hget' : s'.session.wallets[i]? = none := by rw [← h.wallets_eq, hget]
    exact .of_exec (Client.exec_derive_of_none hget path scheme)
      (Client.exec_derive_of_none hget' path scheme) rfl h
  | some wallet =>
    have hget' : s'.session.wallets[i]? = some wallet := by rw [← h.wallets_eq, hget]
    obtain ⟨hout, -⟩ := h.respects ((disksApartRules P _).deriveAccount wallet path scheme)
    cases hs : Effect.outcome (wallet.deriveAccount P path scheme) s.world with
    | error x =>
      exact .of_exec (Client.exec_derive_of_error hget hs)
        (Client.exec_derive_of_error hget' (hout.symm.trans hs)) rfl h
    | ok account =>
      refine .of_exec (Client.exec_derive_of_ok hget hs)
        (Client.exec_derive_of_ok hget' (hout.symm.trans hs)) rfl { h with accounts_eq := ?_ }
      change s.accounts ++ [account] = s'.accounts ++ [account]
      rw [h.accounts_eq]

theorem Indistinct.sign (h : Indistinct P tried s s') (i : ℕ) (path : DerivationPath)
    (message : Bytes) (scheme : PyStr) :
    AnsweredAlike P tried s s' (.sign i path message scheme) := by
  cases hget : s.session.wallets[i]? with
  | none =>
    have hget' : s'.session.wallets[i]? = none := by rw [← h.wallets_eq, hget]
    exact .of_exec (Client.exec_sign_of_none hget path message scheme)
      (Client.exec_sign_of_none hget' path message scheme) rfl h
  | some wallet =>
    have hget' : s'.session.wallets[i]? = some wallet := by rw [← h.wallets_eq, hget]
    obtain ⟨hout, hnext⟩ :=
      h.respects ((disksApartRules P _).signMessage wallet path message scheme)
    exact .of_exec (Client.exec_sign_of_some hget path message scheme)
      (Client.exec_sign_of_some hget' path message scheme)
      (congrArg (fun o => (Client.Answer.signature o).redact) hout) hnext

theorem Indistinct.accountSign (h : Indistinct P tried s s') (j : ℕ) (message : Bytes) :
    AnsweredAlike P tried s s' (.accountSign j message) := by
  cases hget : s.accounts[j]? with
  | none =>
    have hget' : s'.accounts[j]? = none := by rw [← h.accounts_eq, hget]
    exact .of_exec (Client.exec_accountSign_of_none hget message)
      (Client.exec_accountSign_of_none hget' message) rfl h
  | some account =>
    have hget' : s'.accounts[j]? = some account := by rw [← h.accounts_eq, hget]
    obtain ⟨hout, hnext⟩ := h.respects ((disksApartRules P _).accountSign account message)
    exact .of_exec (Client.exec_accountSign_of_some hget message)
      (Client.exec_accountSign_of_some hget' message)
      (congrArg (fun o => (Client.Answer.bytes o).redact) hout) hnext

theorem Indistinct.close (h : Indistinct P tried s s') (i : ℕ) :
    AnsweredAlike P tried s s' (.close i) := by
  cases hget : s.session.wallets[i]? with
  | none =>
    have hget' : s'.session.wallets[i]? = none := by rw [← h.wallets_eq, hget]
    exact .of_exec (Client.exec_close_of_none hget) (Client.exec_close_of_none hget') rfl h
  | some wallet =>
    have hget' : s'.session.wallets[i]? = some wallet := by rw [← h.wallets_eq, hget]
    obtain ⟨-, hnext⟩ := h.respects ((disksApartRules P _).close wallet)
    exact .of_exec (Client.exec_close_of_some hget) (Client.exec_close_of_some hget') rfl hnext

/-- **One call** is answered alike, if it tries one of these passwords at most. -/
theorem Indistinct.exec (h : Indistinct P tried s s') {c : Client.Call}
    (hc : ∀ i q, c = .unlock i q → tried q) : AnsweredAlike P tried s s' c := by
  -- only unlocking looks at a blob
  cases c with
  | generate strength => exact h.generate strength
  | create m q params hasPassphrase => exact h.create m q params hasPassphrase
  | save i path => exact h.save i path
  | openFile path => exact h.openFile path
  | context blob => exact h.context blob
  | unlock i q => exact h.unlock i (hc i q rfl)
  | derive i path scheme => exact h.derive i path scheme
  | sign i path message scheme => exact h.sign i path message scheme
  | accountSign j message => exact h.accountSign j message
  | close i => exact h.close i

/-- Another process writes to the files. -/
theorem Indistinct.share {t t' : Client} (h : Indistinct P tried s s')
    (h' : Indistinct P tried t t') : Indistinct P tried (s.share t) (s'.share t') := by
  refine { h with world := ?_ }
  obtain ⟨disk', hworld, hdisk⟩ := h.world
  obtain ⟨written', hworld', hwritten⟩ := h'.world
  -- both processes take the files of the one that was called, and keep their own faults
  refine ⟨{ disk' with files := written'.files }, ?_, { hdisk with files := hwritten.files }⟩
  change s'.world.withFiles t'.world.disk.files = _
  rw [hworld, hworld']
  rfl

theorem Indistinct.refl (s : Client) (h : s.world.disk.Whole) : Indistinct P tried s s where
  world := ⟨s.world.disk, rfl, .refl h⟩
  wallets_eq := rfl
  keystores := List.forall₂_same.mpr fun ks _ => .refl ks
  contexts := List.forall₂_same.mpr fun ctx _ => .refl ctx.blob
  accounts_eq := rfl

end Step

/-! ### Two mnemonics under one password -/

section Stored

variable {P : Primitives} {e e' pw : SecretBytes} {params : Argon2Params} {flag : Bool} {ts : ℤ}

/-- Another secret of the same length can be sealed in the same way. -/
theorem Envelope.Sealing.exists_twin (s : Sealing P e pw params flag ts)
    (hlen : e.buf.length = e'.buf.length) :
    ∃ s' : Sealing P e' pw params flag ts, s'.salt = s.salt ∧ s'.nonce = s.nonce := by
  -- the plaintext differs in the secret only, and its length fits in one byte again
  have hle : e'.buf.length ≤ 255 := hlen ▸ s.seed_le
  obtain ⟨stamp, hstamp, -⟩ := (packPlaintext_eq_ok_iff s.seed_le).mp s.plaintext_eq
  have hplain : packPlaintext e' ts flag = .ok _ :=
    (packPlaintext_eq_ok_iff hle).mpr ⟨stamp, hstamp, rfl⟩
  exact ⟨{ s with seed_le := hle, plaintext := _, plaintext_eq := hplain }, rfl, rfl⟩

end Stored

/-- Two clients that stored the one and the other are indistinct. -/
theorem Indistinct.of_create {P : Primitives} (hP : P.RefusesAlike) {s : Client} {m m' : Mnemonic}
    {e e' : SecretBytes} (he : m.entropy = .ok e) (he' : m'.entropy = .ok e')
    (hlen : e.buf.length = e'.buf.length) {password : PyStr} {params : Argon2Params}
    {hasPassphrase : Bool} {ks : Keystore} {tried : PyStr → Prop} (hpassword : ¬ tried password)
    (hwhole : s.world.disk.Whole)
    (hcreate : (s.exec P (.create m password params hasPassphrase)).1 = .keystore (.ok ks))
    (hlocked : s.Locked P tried (.create m password params hasPassphrase))
    (hlocked' : s.Locked P tried (.create m' password params hasPassphrase)) :
    (s.exec P (.create m password params hasPassphrase)).1.redact
        = (s.exec P (.create m' password params hasPassphrase)).1.redact ∧
      Indistinct P tried (s.exec P (.create m password params hasPassphrase)).2
        (s.exec P (.create m' password params hasPassphrase)).2 := by
  have hout := Client.Answer.keystore.inj hcreate
  obtain ⟨hne, pw, e₀, hpw, he₀, sealing, hsalt, hnonce, rfl⟩ :=
    Keystore.sealing_of_run_create (Effect.run_of_outcome hout)
  -- the sealing of the one is what the call has made; that of the other is its twin
  obtain rfl : e = e₀ := Except.ok.inj (he.symm.trans he₀)
  obtain ⟨sealing', hsalt', hnonce'⟩ := sealing.exists_twin hlen
  have hlocks := (hlocked.2 pw e hpw he sealing hsalt hnonce).2
  have hlocks' := (hlocked'.2 pw e' hpw he' sealing' (hsalt'.trans hsalt)
    (hnonce'.trans hnonce)).2
  -- both creations end in the same world
  have hrun := Keystore.run_create hne hpw he sealing hsalt hnonce
  have hrun' := Keystore.run_create hne hpw he' sealing' (hsalt'.trans hsalt)
    (hnonce'.trans hnonce)
  have hcall : sealing'.call = sealing.call := by
    unfold Envelope.Sealing.call
    rw [hsalt']
  rw [hcall] at hrun'
  have halike : KeystoresAlike P tried ⟨sealing.blob, params, hasPassphrase, 0⟩
      ⟨sealing'.blob, params, hasPassphrase, 0⟩ :=
    ⟨hlocks.lookAlike hP hlocked.1 hlocks' hsalt'.symm hnonce'.symm hlen hpw hpassword, rfl, rfl,
      rfl⟩
  have hexec := Client.exec_create_of_ok (Effect.outcome_of_ok hrun)
  have hexec' := Client.exec_create_of_ok (Effect.outcome_of_ok hrun')
  rw [Effect.after_of_ok hrun] at hexec
  rw [Effect.after_of_ok hrun'] at hexec'
  rw [hexec, hexec']
  have hsame : Indistinct P tried _ _ := Indistinct.refl
    (s.withWorld ((Envelope.packedWorld s.world sealing.call params.saltLen none).wipe pw)) hwhole
  exact ⟨halike.redact_eq, { hsame with keystores := forall₂_concat hsame.keystores halike }⟩

/-- **What is stored is not seen.** Whichever of two mnemonics of one length a process stores under
a password, clients that do not try this password get the same answers, up to the bytes of the
ciphertext. Accesses to files may fail, but no write is broken off: of pieces of the two blobs
nothing is known. -/
theorem view_create {P : Primitives} (hP : P.RefusesAlike) {π : Type} [DecidableEq π]
    {S : Machine π} (hwhole : ∀ q, (S q).world.disk.Whole) {p : π} {m m' : Mnemonic}
    {e e' : SecretBytes} (he : m.entropy = .ok e) (he' : m'.entropy = .ok e')
    (hlen : e.buf.length = e'.buf.length) {password : PyStr} {params : Argon2Params}
    {hasPassphrase : Bool} {ks : Keystore}
    (hcreate : ((S p).exec P (.create m password params hasPassphrase)).1 = .keystore (.ok ks))
    {calls : List (π × Client.Call)} (hcalls : ¬ Machine.Tries calls password)
    (hlocked : (S p).Locked P (Machine.Tries calls) (.create m password params hasPassphrase))
    (hlocked' : (S p).Locked P (Machine.Tries calls) (.create m' password params hasPassphrase)) :
    S.view P ((p, .create m password params hasPassphrase) :: calls)
      = S.view P ((p, .create m' password params hasPassphrase) :: calls) := by
  obtain ⟨hview, hself⟩ :=
    Indistinct.of_create hP he he' hlen hcalls (hwhole p) hcreate hlocked hlocked'
  -- the other processes were the same before, and see the same files now
  have hnext := Processes.rel_update (p := p) (fun _ _ _ _ => Indistinct.share)
    (fun q => Indistinct.refl (S q) (hwhole q)) hself
  refine congrArg₂ List.cons hview ?_
  refine Processes.map_trace_eq (fun _ _ _ _ => Indistinct.share)
    -- the trace is compared call by call, with `Indistinct` between the two machines
    (fun _ _ c hs (hc : ∀ i q, c = .unlock i q → Machine.Tries calls q) => hs.exec hc) hnext ?_
  rintro ⟨q, c⟩ hmem i password' rfl
  exact ⟨q, i, hmem⟩

/-- Whatever `locked` refuses, it says the same. -/
theorem locked_refusesAlike : Primitives.locked.RefusesAlike := by
  have htext : ∀ key nonce ciphertext aad text,
      Primitives.locked.aesGcmDecrypt key nonce ciphertext aad = .error text →
      text = "InvalidTag" := by
    intro key nonce ciphertext aad text h
    change (if key = List.replicate 32 1
      then Primitives.toy.aesGcmDecrypt key nonce ciphertext aad else .error "InvalidTag") = _ at h
    split at h
    · unfold Primitives.toy at h
      simp only at h
      -- in the toy cipher, too, there is one text for whatever does not open
      split at h
      · cases h
      · exact (Except.error.inj h).symm
    · exact (Except.error.inj h).symm
  intro key nonce ciphertext ciphertext' aad text text' _ _ _ h h'
  exact (htext _ _ _ _ _ h).trans (htext _ _ _ _ _ h').symm

/-- Another process opens the file and tries a wrong password. -/
theorem view_create_twoPhrases : ∃ m', m' ≠ ⟨zeroPhrase⟩ ∧
    zeroMachine.view Primitives.locked
      [(false, .create ⟨zeroPhrase⟩ pwPassword interactiveProfile false), (false, .save 0 [0x6B]),
        (true, .openFile [0x2E, 0x2F, 0x6B]), (true, .unlock 0 [0x6E])]
      = zeroMachine.view Primitives.locked
        [(false, .create m' pwPassword interactiveProfile false), (false, .save 0 [0x6B]),
          (true, .openFile [0x2E, 0x2F, 0x6B]), (true, .unlock 0 [0x6E])] := by
  obtain ⟨m', -, hm'⟩ := exists_fromEntropy Primitives.locked
    (e := ⟨List.replicate 16 1, by decide⟩) (by decide)
  obtain ⟨ks, w', hrun, -⟩ := exists_create_locked
  have hcreate : ((zeroMachine false).exec Primitives.locked
      (.create ⟨zeroPhrase⟩ pwPassword interactiveProfile false)).1 = .keystore (.ok ks) :=
    congrArg Client.Answer.keystore (Effect.outcome_of_ok hrun)
  have hwhole : ∀ q, (zeroMachine q).world.disk.Whole := fun _ => Disk.Reliable.whole fun _ => rfl
  have htries : ¬ Machine.Tries [(false, .save 0 [0x6B]), (true, .openFile [0x2E, 0x2F, 0x6B]),
      (true, .unlock 0 [0x6E])] pwPassword := by
    rintro ⟨q, i, hmem⟩
    have hpassword : ([0x6E] : PyStr) ≠ pwPassword := by decide
    simp [hpassword.symm] at hmem
  refine ⟨m', ?_, view_create locked_refusesAlike hwhole zeroPhrase_entropy hm' rfl hcreate htries
    (locked_create _ _) (locked_create _ _)⟩
  rintro rfl
  cases zeroPhrase_entropy.symm.trans hm'

end KeystoneCrypto
