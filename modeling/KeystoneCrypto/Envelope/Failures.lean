import KeystoneCrypto.Envelope.Run

/-!
# How unpacking fails

The envelope reports with `KeystoneVersionError` and `KeystoneDecryptionError`. The checks of
`unpack` itself and the refusal of the cipher do; three other failures pass through as they are.
The header may ask Argon2id for parameters it does not support, which raises argon2's own error. It
may ask for a key that is not 32 bytes long, which the wrapper of the cipher refuses with
`ValueError`. And a ciphertext made under the right key may hold a seed of length zero, which
`SecretBytes` refuses with `ValueError`. Outside of these three cases every failure is typed
(`unpack_failsTyped_iff`).
-/

namespace KeystoneCrypto

/-- Argon2id raises for parameters outside of its ranges. -/
def Primitives.RefusesUnsupported (P : Primitives) : Prop :=
  ∀ c raw, P.hashSecretRaw c = .ok raw → c.Supported

/-- One of the two errors the envelope reports with. -/
def PyExc.Typed (e : PyExc) : Prop :=
  e.type = .keystoreVersionError ∨ e.type = .keystoreDecryptionError

/-- Whatever comes of the computation, a failure is typed. -/
def TypedErrors {α : Type} (x : Except PyExc α) : Prop := ∀ e, x = .error e → e.Typed

namespace TypedErrors

variable {α β : Type}

theorem ok (a : α) : TypedErrors (.ok a) := by
  intro e h
  cases h

theorem error_iff {e : PyExc} : TypedErrors (.error e : Except PyExc α) ↔ e.Typed := by
  refine ⟨fun h => h e rfl, ?_⟩
  rintro h e' he'
  cases he'
  exact h

theorem bind_iff {x : Except PyExc α} {f : α → Except PyExc β} :
    TypedErrors (x >>= f) ↔ TypedErrors x ∧ ∀ a, x = .ok a → TypedErrors (f a) := by
  cases x with
  | ok a => simp [ok]
  | error e => simp [error_iff]

/-- A check that raises a typed error can be passed over. -/
theorem raiseIf_bind {c : Prop} [Decidable c] {t : ExcType} {text : List TextPiece}
    {f : Unit → Except PyExc β} (ht : PyExc.Typed ⟨t, text⟩) :
    TypedErrors (raiseIf c t text >>= f) ↔ (¬ c → TypedErrors (f ())) := by
  by_cases h : c
  · rw [raiseIf_pos h, Effect.error_bind, error_iff]
    simp [h, ht]
  · rw [raiseIf_neg h, Effect.ok_bind]
    simp [h]

end TypedErrors

namespace Envelope

/-! ### The parts of `unpack` -/

theorem typedErrors_readHeader (blob : Bytes) : TypedErrors (readHeader blob) := by
  unfold readHeader
  rw [TypedErrors.raiseIf_bind (.inr rfl)]
  intro hlen
  -- behind the first check the fixed offsets are inside the blob
  have hlen' : 82 ≤ blob.length := Nat.not_lt.mp hlen
  rw [TypedErrors.raiseIf_bind (.inl rfl)]
  intro _
  rw [indexAt_of_lt (show offVersion < blob.length from lt_of_lt_of_le (by decide) hlen'),
    Effect.ok_bind, TypedErrors.raiseIf_bind (.inl rfl)]
  intro _
  rw [indexAt_of_lt (show offKdfId < blob.length from lt_of_lt_of_le (by decide) hlen'),
    Effect.ok_bind]
  refine TypedErrors.bind_iff.mpr ⟨?_, fun _ _ => .ok _⟩
  unfold unpackKdfParams
  rw [TypedErrors.raiseIf_bind (.inr rfl)]
  exact fun _ => .ok _

/-- A plaintext that is long enough and says that its seed is empty. -/
def EmptySeed (plaintext : Bytes) : Prop := 16 ≤ plaintext.length ∧ plaintext.head? = some 0

/-- For an empty seed the slice is empty, and `SecretBytes` refuses it. -/
theorem unpackPlaintext_zero {l : Bytes} (hlen : 15 ≤ l.length) :
    unpackPlaintext (0 :: l) = .error ⟨.valueError, [.lit "SecretBytes cannot be empty"]⟩ := by
  -- for an empty seed the second check of the length is the first one again
  have hshort : ¬ (0 :: l : Bytes).length < 1 + 8 + 1 + 6 := by
    rw [List.length_cons]
    omega
  have hlong : ¬ (0 :: l : Bytes).length < 1 + (0 : UInt8).toNat + 8 + 1 + 6 := by
    rw [UInt8.toNat_zero]
    exact hshort
  unfold unpackPlaintext
  rw [raiseIf_neg hshort, Effect.ok_bind, indexAt_of_lt (Nat.succ_pos _), Effect.ok_bind,
    List.getElem_cons_zero]
  dsimp only
  rw [raiseIf_neg hlong, Effect.ok_bind]
  rfl

/-- A plaintext as long as its first byte says has all its fields. -/
theorem exists_unpackPlaintext {b : UInt8} {l : Bytes} (hb : b ≠ 0)
    (hlong : 16 + b.toNat ≤ (b :: l).length) : ∃ u, unpackPlaintext (b :: l) = .ok u := by
  have hpos : 0 < b.toNat := Nat.pos_of_ne_zero fun h => hb (UInt8.toNat_inj.mp h)
  -- seed, timestamp and flag lie where the first byte says
  have hseed : sliceFromTo (b :: l) 1 (1 + b.toNat) ≠ [] := by
    refine List.ne_nil_of_length_pos ?_
    rw [length_sliceFromTo]
    omega
  have hstamp : (sliceFromTo (b :: l) (1 + b.toNat) (1 + b.toNat + 8)).length = 8 := by
    rw [length_sliceFromTo]
    omega
  unfold unpackPlaintext
  rw [raiseIf_neg (by omega), Effect.ok_bind, indexAt_of_lt (Nat.succ_pos _), Effect.ok_bind,
    List.getElem_cons_zero]
  dsimp only
  obtain ⟨ts, hts⟩ := exists_packI64 hstamp
  rw [raiseIf_neg (by omega), Effect.ok_bind, SecretBytes.new_of_ne_nil hseed, Effect.ok_bind,
    unpackI64_of_packI64 hts, Effect.ok_bind, indexAt_of_lt (by omega)]
  exact ⟨_, rfl⟩

/-- A shorter one is refused. -/
theorem unpackPlaintext_of_short {b : UInt8} {l : Bytes} (h : (b :: l).length < 16 + b.toNat) :
    ∃ e, unpackPlaintext (b :: l) = .error e ∧ e.type = .keystoreDecryptionError := by
  unfold unpackPlaintext
  by_cases hlen : (b :: l).length < 1 + 8 + 1 + 6
  -- two checks, of which the first does not look at the byte
  · exact ⟨_, by rw [raiseIf_pos hlen]; rfl, rfl⟩
  · refine ⟨⟨.keystoreDecryptionError, [.lit "seed length inconsistent"]⟩, ?_, rfl⟩
    rw [raiseIf_neg hlen, Effect.ok_bind, indexAt_of_lt (Nat.succ_pos _), Effect.ok_bind,
      List.getElem_cons_zero]
    dsimp only
    rw [raiseIf_pos (by omega)]
    rfl

theorem typedErrors_unpackPlaintext {b : UInt8} {l : Bytes} (hb : b ≠ 0) :
    TypedErrors (unpackPlaintext (b :: l)) := by
  -- either all fields are there, or the length is refused
  by_cases hlong : 16 + b.toNat ≤ (b :: l).length
  · obtain ⟨u, hu⟩ := exists_unpackPlaintext hb hlong
    rw [hu]
    exact .ok u
  · obtain ⟨e, he, htype⟩ := unpackPlaintext_of_short (Nat.lt_of_not_le hlong)
    rw [he]
    exact TypedErrors.error_iff.mpr (.inr htype)

/-- An empty seed is the only failure of the layout that is not typed. -/
theorem typedErrors_unpackPlaintext_iff {plaintext : Bytes} :
    TypedErrors (unpackPlaintext plaintext) ↔ ¬ EmptySeed plaintext := by
  by_cases hlen : plaintext.length < 1 + 8 + 1 + 6
  · refine iff_of_true ?_ fun h => absurd h.1 (Nat.not_le.mpr hlen)
    unfold unpackPlaintext
    rw [TypedErrors.raiseIf_bind (.inr rfl)]
    exact fun h => absurd hlen h
  cases plaintext with
  | nil => exact absurd (by decide) hlen
  | cons b l =>
    by_cases hb : b = 0
    · subst hb
      have hge : 15 ≤ l.length := Nat.le_of_succ_le_succ (Nat.not_lt.mp hlen)
      have hempty : EmptySeed (0 :: l) := ⟨Nat.not_lt.mp hlen, rfl⟩
      -- `ValueError` is neither of the two
      rw [unpackPlaintext_zero hge, TypedErrors.error_iff]
      refine iff_of_false ?_ (not_not.mpr hempty)
      rintro (h | h)
      · cases h
      · cases h
    · exact iff_of_true (typedErrors_unpackPlaintext hb) fun h => hb (Option.some.inj h.2)

theorem typedErrors_decrypt_iff {P : Primitives} {key : SecretBytes} {nonce ciphertext aad : Bytes}
    (hnonce : nonce.length = 12) :
    TypedErrors (decrypt P key nonce ciphertext aad) ↔ key.buf.length = 32 := by
  have hlen : nonce.length = nonceLen := hnonce
  unfold decrypt
  rw [raiseIf_neg (not_not.mpr hlen), Effect.ok_bind]
  by_cases hkey : key.buf.length = 32
  -- with a key of 32 bytes only the cipher can refuse, and that is reported
  · rw [asKey_of_length hkey, Effect.ok_bind]
    refine iff_of_true ?_ hkey
    cases P.aesGcmDecrypt key.buf nonce ciphertext aad with
    | ok plaintext => exact .ok _
    | error text => exact TypedErrors.error_iff.mpr (.inr rfl)
  · unfold asKey
    rw [raiseIf_pos (show key.buf.length ≠ keyLen from hkey), Effect.error_bind, Effect.error_bind,
      TypedErrors.error_iff]
    refine iff_of_false ?_ hkey
    rintro (h | h)
    · cases h
    · cases h

/-- Behind the key derivation. -/
theorem typedErrors_openHeader_iff {P : Primitives} {h : Header} {key : SecretBytes}
    (hnonce : h.nonce.length = 12) :
    TypedErrors (openHeader P h key) ↔ key.buf.length = 32 ∧ (h.kdfId = 1 → ∀ plaintext,
      P.aesGcmDecrypt key.buf h.nonce h.ciphertext [h.version, h.kdfId] = .ok plaintext →
        ¬ EmptySeed plaintext) := by
  -- the code compares the byte with the number
  have hone : h.kdfId.toNat = 1 ↔ h.kdfId = 1 := by
    rw [← UInt8.toNat_inj]
    rfl
  unfold openHeader
  rw [aad_toNat, Effect.ok_bind, TypedErrors.bind_iff, typedErrors_decrypt_iff hnonce]
  refine and_congr_right fun hkey => ?_
  simp only [decrypt_eq_ok_iff, hnonce, hkey, true_and]
  refine ⟨?_, ?_⟩
  · intro hopen hid plaintext hdecrypt
    have htyped := hopen plaintext hdecrypt
    rw [TypedErrors.raiseIf_bind (.inl rfl)] at htyped
    exact typedErrors_unpackPlaintext_iff.mp (htyped (not_not.mpr (hone.mpr hid)))
  · intro hempty plaintext hdecrypt
    rw [TypedErrors.raiseIf_bind (.inl rfl)]
    intro hid
    exact typedErrors_unpackPlaintext_iff.mpr
      (hempty (hone.mp (not_not.mp hid)) plaintext hdecrypt)

/-! ### The whole of `unpack` -/

/-- Every failure of `unpack` is typed. -/
def FailsTyped (P : Primitives) (blob : Bytes) (password : SecretBytes) : Prop :=
  ∀ w e w', (unpack P blob password).run w = .error e w' → e.Typed

/-- Under the password, the ciphertext of the blob is that of a plaintext with an empty seed. -/
def SealsEmptySeed (P : Primitives) (blob : Bytes) (password : SecretBytes) : Prop :=
  (header blob).kdfId = 1 ∧ ∃ key plaintext, P.hashSecretRaw (headerCall blob password) = .ok key ∧
    P.aesGcmDecrypt key (header blob).nonce (header blob).ciphertext
      [(header blob).version, (header blob).kdfId] = .ok plaintext ∧
    EmptySeed plaintext

/-- The header asks for parameters Argon2id supports and for a key of 32 bytes, and the ciphertext
does not hold an empty seed. -/
structure Benign (P : Primitives) (blob : Bytes) (password : SecretBytes) : Prop where
  supported : (headerCall blob password).Supported
  hashLen_eq : (headerCall blob password).hashLen = 32
  no_empty_seed : ¬ SealsEmptySeed P blob password

section Failures

variable {P : Primitives} (blob : Bytes) (password : SecretBytes)

theorem failsTyped_of_not_readable (h : ¬ Readable blob) : FailsTyped P blob password := by
  intro w e w' hrun
  obtain ⟨e', hread, hrun'⟩ := run_unpack_of_not_readable P password h w
  cases hrun'.symm.trans hrun
  exact typedErrors_readHeader blob e hread

/-- For a readable blob it is the derivation and the opening that can fail. -/
theorem failsTyped_iff_of_readable (h : Readable blob) : FailsTyped P blob password ↔
    TypedErrors (derivedKey P (headerCall blob password) >>= openHeader P (header blob)) := by
  refine ⟨?_, ?_⟩
  · intro htyped e he
    -- the world has no say in it, so one world will do
    refine htyped zeroWorld e (zeroWorld.recordKdf (headerCall blob password)) ?_
    rw [run_unpack h, he]
  · intro htyped w e w' hrun
    rw [run_unpack h] at hrun
    cases hcome : derivedKey P (headerCall blob password) >>= openHeader P (header blob) with
    | ok u =>
      rw [hcome] at hrun
      cases hrun
    | error e' =>
      rw [hcome] at hrun
      cases hrun
      exact htyped e hcome

/-- The errors of the derivation are not typed, so it must not fail. -/
theorem typedErrors_derivedKey_iff (hP : P.RefusesUnsupported) {call : Argon2Call} :
    TypedErrors (derivedKey P call) ↔ call.Supported := by
  refine ⟨?_, ?_⟩
  · intro htyped
    unfold derivedKey at htyped
    cases hraw : P.hashSecretRaw call with
    | ok raw => exact hP call raw hraw
    | error text =>
      rw [hraw] at htyped
      rcases TypedErrors.error_iff.mp htyped with h | h
      · cases h
      · cases h
  · intro hsupported
    obtain ⟨key, hkey⟩ := exists_derivedKey (P := P) hsupported
    rw [hkey]
    exact .ok key

/-- **How unpacking fails.** All failures are typed exactly if the blob is not readable or the three
cases that pass through are excluded. -/
theorem unpack_failsTyped_iff (hP : P.RefusesUnsupported) :
    FailsTyped P blob password ↔ (Readable blob → Benign P blob password) := by
  by_cases hread : Readable blob
  swap
  · exact iff_of_true (failsTyped_of_not_readable blob password hread) fun h => absurd h hread
  -- a readable blob is long enough for a whole nonce
  have hnonce : (header blob).nonce.length = 12 := by
    have hlen := hread.length_ge
    unfold header
    rw [length_sliceFromTo]
    omega
  -- a derived key has the length the header asks for
  have hlength : ∀ key, derivedKey P (headerCall blob password) = .ok key →
      (key.buf.length = 32 ↔ (headerCall blob password).hashLen = 32) := by
    intro key hkey
    have hlen := P.hashSecretRaw_length _ _ (derivedKey_eq_ok_iff.mp hkey)
    omega
  rw [failsTyped_iff_of_readable blob password hread, imp_iff_right hread, TypedErrors.bind_iff,
    typedErrors_derivedKey_iff hP]
  refine ⟨?_, ?_⟩
  -- the call is supported, so there is a key, and what is asked is about this key
  · rintro ⟨hsupported, hopen⟩
    obtain ⟨key, hkey⟩ := exists_derivedKey (P := P) hsupported
    obtain ⟨hlen, hempty⟩ := (typedErrors_openHeader_iff hnonce).mp (hopen key hkey)
    refine ⟨hsupported, (hlength key hkey).mp hlen, ?_⟩
    rintro ⟨hid, raw, plaintext, hraw, hdecrypt, hseed⟩
    cases (derivedKey_eq_ok_iff.mp hkey).symm.trans hraw
    exact hempty hid plaintext hdecrypt hseed
  · rintro ⟨hsupported, hlen, hempty⟩
    refine ⟨hsupported, fun key hkey => (typedErrors_openHeader_iff hnonce).mpr
      ⟨(hlength key hkey).mpr hlen, fun hid plaintext hdecrypt hseed => ?_⟩⟩
    exact hempty ⟨hid, key.buf, plaintext, derivedKey_eq_ok_iff.mp hkey, hdecrypt, hseed⟩

end Failures

end Envelope

/-! ### A short key -/

instance (c : Argon2Call) : Decidable c.Supported :=
  decidable_of_iff (1 ≤ c.timeCost ∧ c.timeCost < 2 ^ 32 ∧ 1 ≤ c.parallelism ∧
      c.parallelism < 2 ^ 24 ∧ 8 * c.parallelism ≤ c.memoryCost ∧ c.memoryCost < 2 ^ 32 ∧
      8 ≤ c.salt.length ∧ c.salt.length < 2 ^ 32 ∧ 4 ≤ c.hashLen ∧ c.hashLen < 2 ^ 32)
    ⟨fun ⟨h1, h2, h3, h4, h5, h6, h7, h8, h9, h10⟩ => ⟨h1, h2, h3, h4, h5, h6, h7, h8, h9, h10⟩,
      fun ⟨h1, h2, h3, h4, h5, h6, h7, h8, h9, h10⟩ => ⟨h1, h2, h3, h4, h5, h6, h7, h8, h9, h10⟩⟩

namespace Primitives

/-- Zeros of the length asked for, within the supported ranges. -/
def rangedKey (c : Argon2Call) : Except String Bytes :=
  if c.Supported then .ok (List.replicate c.hashLen.toNat 0) else .error "unsupported parameters"

theorem rangedKey_eq_ok_iff {c : Argon2Call} {raw : Bytes} :
    rangedKey c = .ok raw ↔ c.Supported ∧ raw = List.replicate c.hashLen.toNat 0 := by
  unfold rangedKey
  by_cases h : c.Supported <;> simp [h, @eq_comm _ raw]

theorem length_rangedKey (c : Argon2Call) (raw : Bytes) (h : rangedKey c = .ok raw) :
    (raw.length : ℤ) = c.hashLen := by
  -- in the supported ranges the length is at least 4
  obtain ⟨hsupported, rfl⟩ := rangedKey_eq_ok_iff.mp h
  have hlen := hsupported.hashLen_ge
  rw [List.length_replicate]
  omega

theorem exists_rangedKey (c : Argon2Call) (h : c.Supported) : ∃ raw, rangedKey c = .ok raw :=
  ⟨_, rangedKey_eq_ok_iff.mpr ⟨h, rfl⟩⟩

/-- `toy` with an Argon2id that minds its ranges. -/
def ranged : Primitives :=
  { toy with
    hashSecretRaw := rangedKey
    hashSecretRaw_length := length_rangedKey
    hashSecretRaw_supported := exists_rangedKey }

theorem ranged_refusesUnsupported : ranged.RefusesUnsupported := fun _ _ h =>
  (rangedKey_eq_ok_iff.mp h).1

end Primitives

namespace Envelope

/-- A header that asks for sixteen bytes of key, with zeros for salt, nonce and tag. -/
def shortKeyBlob : Bytes :=
  magic ++ [1, 1] ++ [0, 0, 0, 1, 0, 0, 0, 8, 0, 0, 0, 1, 0, 0, 0, 16, 0, 0, 0, 0x13]
    ++ List.replicate (12 + 16 + 12 + 16) 0

theorem unpack_failsTyped_iff_shortKey :
    FailsTyped Primitives.ranged shortKeyBlob ⟨[1], by simp⟩ ↔
      (Readable shortKeyBlob → Benign Primitives.ranged shortKeyBlob ⟨[1], by simp⟩) :=
  unpack_failsTyped_iff shortKeyBlob ⟨[1], by simp⟩ Primitives.ranged_refusesUnsupported

/-- **An error that is not typed.** The key is derived, and the wrapper of the cipher refuses it. -/
theorem shortKey_valueError : ∃ e w,
    (unpack Primitives.ranged shortKeyBlob ⟨[1], by simp⟩).run zeroWorld = .error e w ∧
    e.type = .valueError ∧ ¬ FailsTyped Primitives.ranged shortKeyBlob ⟨[1], by simp⟩ := by
  have hread : Readable shortKeyBlob := ⟨by decide, by decide, by decide⟩
  have hrun : (unpack Primitives.ranged shortKeyBlob ⟨[1], by simp⟩).run zeroWorld = _ :=
    run_unpack hread zeroWorld
  have hfail : derivedKey Primitives.ranged (headerCall shortKeyBlob ⟨[1], by simp⟩)
      >>= openHeader Primitives.ranged (header shortKeyBlob)
      = .error ⟨.valueError, [.lit "AES-256-GCM key must be ", .int 32, .lit " bytes, got ",
        .int 16]⟩ := by
    -- the length of the key is checked before the cipher is asked
    decide +kernel
  rw [hfail] at hrun
  refine ⟨_, _, hrun, rfl, fun htyped => ?_⟩
  rcases htyped _ _ _ hrun with h | h
  · cases h
  · cases h

end Envelope

end KeystoneCrypto
