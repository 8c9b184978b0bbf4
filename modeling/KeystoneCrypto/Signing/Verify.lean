import KeystoneCrypto.Signing.Der

/-!
# What `verify` establishes

The libraries behind `verify` check relations between a public key, a message or digest, and a
signature. The ECDSA relation speaks about two numbers `r` and `s`, and coincurve reads them from
a DER encoding that `verify` builds from the two halves of the raw signature. The conversion keeps
the signature (`rsToDer_eq`), so acceptance means that the relation holds for the ECDSA and the
Ed25519 scheme. The Schnorr branch is a placeholder, announced as such in the source: it accepts
whatever has 64 bytes that are not all zero.

Conversely, if the libraries accept what they sign, `verify` accepts what a signer of this file's
three schemes returns (`Signer.run_sign_accepted`). In both directions there is one lemma for each
branch of `verify` that says what the branch asks its library (`verify_ecdsa_iff` and its siblings),
and what is said about schemes is put together from these.
-/

namespace KeystoneCrypto

/-! ### Soundness -/

/-- The verification relations of the schemes: ECDSA on a public key, a digest and the numbers `r`
and `s`; Ed25519 on a public key, a message and a raw signature, which has 64 bytes in RFC 8032. -/
structure Relations where
  ecdsa : Bytes → Bytes → ℕ → ℕ → Prop
  ed25519 : Bytes → Bytes → Bytes → Prop
  ed25519_length : ∀ pk message raw, ed25519 pk message raw → raw.length = 64

/-- The libraries accept only what the relations admit; of ECDSA this is asked for numbers of 32
bytes. -/
structure Relations.CheckedBy (R : Relations) (P : Primitives) : Prop where
  ecdsa : ∀ pk digest r s, r < 256 ^ 32 → s < 256 ^ 32 →
    P.ecdsaVerify pk (Der.signature byteDigit r s) digest = .ok true → R.ecdsa pk digest r s
  ed25519 : ∀ pk message raw, P.ed25519Verify pk raw message = .ok () → R.ed25519 pk message raw

section Sound

variable {P : Primitives} {sig : Signature} {message : Bytes} {publicKey : Option Bytes}

theorem ecdsaScheme_ne : schnorrScheme ≠ ecdsaScheme ∧ ed25519Scheme ≠ ecdsaScheme ∧
    ed25519Scheme ≠ schnorrScheme := by
  refine ⟨?_, ?_, ?_⟩
  all_goals
    intro h
    exact absurd (PyStr.ofString_injective h) (by decide)

/-- The ECDSA branch asks coincurve about the encoding of the two halves. -/
theorem verify_ecdsa_iff (hscheme : sig.scheme = ecdsaScheme) :
    sig.verify P message publicKey = .ok true ↔
      ∃ der, rsToDer (sig.raw.take 32) (sig.raw.drop 32) = .ok der ∧
        P.ecdsaVerify (publicKey.getD sig.publicKey) der (P.sha256 message) = .ok true := by
  unfold Signature.verify
  simp only [hscheme, if_true]
  cases rsToDer (sig.raw.take 32) (sig.raw.drop 32) with
  | error e =>
    -- an exception of the conversion is swallowed, and the answer is `False`
    simp
  | ok der =>
    simp only [Except.ok.injEq, exists_eq_left']
    cases P.ecdsaVerify (publicKey.getD sig.publicKey) der (P.sha256 message) <;> simp

/-- Coincurve accepted the encoding of the two halves. -/
theorem ecdsaVerify_of_verify (hscheme : sig.scheme = ecdsaScheme)
    (h : sig.verify P message publicKey = .ok true) :
    sig.raw.length = 64 ∧ P.ecdsaVerify (publicKey.getD sig.publicKey) (Der.signature byteDigit
      (intFromBytes (sig.raw.take 32)) (intFromBytes (sig.raw.drop 32))) (P.sha256 message)
        = .ok true := by
  obtain ⟨der, hder, hverify⟩ := (verify_ecdsa_iff hscheme).mp h
  -- the conversion succeeded, so the halves have 32 bytes each
  obtain ⟨hr, hs⟩ := length_of_rsToDer hder
  rw [rsToDer_eq hr hs, Except.ok.injEq] at hder
  rw [List.length_take] at hr
  rw [List.length_drop] at hs
  refine ⟨by omega, ?_⟩
  rw [hder]
  exact hverify

/-- The Ed25519 branch asks the library. -/
theorem verify_ed25519_iff (hscheme : sig.scheme = ed25519Scheme) :
    sig.verify P message publicKey = .ok true ↔
      P.ed25519Verify (publicKey.getD sig.publicKey) sig.raw message = .ok () := by
  obtain ⟨-, hee, hes⟩ := ecdsaScheme_ne
  unfold Signature.verify
  simp only [hscheme, if_neg hee, if_neg hes, if_true]
  cases P.ed25519Verify (publicKey.getD sig.publicKey) sig.raw message <;> simp

/-- What the library does not accept is answered with `False`, whatever it raised. -/
theorem verify_ed25519_refused (hscheme : sig.scheme = ed25519Scheme)
    (h : P.ed25519Verify (publicKey.getD sig.publicKey) sig.raw message ≠ .ok ()) :
    sig.verify P message publicKey = .ok false := by
  obtain ⟨-, hee, hes⟩ := ecdsaScheme_ne
  unfold Signature.verify
  simp only [hscheme, if_neg hee, if_neg hes, if_true]
  cases hverify : P.ed25519Verify (publicKey.getD sig.publicKey) sig.raw message with
  | error text => rfl
  | ok u => exact absurd hverify h

/-- The Schnorr branch looks at the raw bytes only. -/
theorem verify_schnorr_iff (hscheme : sig.scheme = schnorrScheme) :
    sig.verify P message publicKey = .ok true ↔
      sig.raw.length = 64 ∧ sig.raw ≠ List.replicate 64 0 := by
  unfold Signature.verify
  simp only [hscheme, if_neg ecdsaScheme_ne.1, if_true]
  -- the placeholder checks the length and compares with zeros, and reads neither message nor key
  by_cases hraw : sig.raw.length ≠ 64 ∨ sig.raw = List.replicate 64 0
  · rw [if_pos hraw]
    refine ⟨?_, ?_⟩
    · intro h
      cases h
    · rintro ⟨hlen, hne⟩
      exact absurd hraw (not_or.mpr ⟨not_not.mpr hlen, hne⟩)
  · rw [if_neg hraw]
    push Not at hraw
    exact ⟨fun _ => hraw, fun _ => rfl⟩

/-- The halves of 64 bytes are numbers of 32 bytes. -/
theorem lt_of_length {raw : Bytes} (h : raw.length = 64) :
    intFromBytes (raw.take 32) < 256 ^ 32 ∧ intFromBytes (raw.drop 32) < 256 ^ 32 := by
  have htake : (raw.take 32).length = 32 := by
    rw [List.length_take, h]
    rfl
  have hdrop : (raw.drop 32).length = 32 := by
    rw [List.length_drop, h]
  have hr : intFromBytes (raw.take 32) < 256 ^ (raw.take 32).length := Radix.value_lt byteDigit _
  have hs : intFromBytes (raw.drop 32) < 256 ^ (raw.drop 32).length := Radix.value_lt byteDigit _
  rw [htake] at hr
  rw [hdrop] at hs
  exact ⟨hr, hs⟩

/-- **What acceptance means.** An accepted ECDSA signature has 64 bytes, and its halves satisfy
the relation for the digest of the message and the public key used; an accepted Ed25519 signature
has 64 bytes too, which satisfy its relation for the message and that key. The Schnorr branch accepts
exactly the strings of 64 bytes that are not all zero, whatever the message and the key. -/
theorem verify_eq_true {R : Relations} (hR : R.CheckedBy P) (sig : Signature) (message : Bytes)
    (publicKey : Option Bytes) :
    (sig.scheme = ecdsaScheme → sig.verify P message publicKey = .ok true →
      sig.raw.length = 64 ∧ R.ecdsa (publicKey.getD sig.publicKey) (P.sha256 message)
        (intFromBytes (sig.raw.take 32)) (intFromBytes (sig.raw.drop 32))) ∧
    (sig.scheme = ed25519Scheme → sig.verify P message publicKey = .ok true →
      sig.raw.length = 64 ∧ R.ed25519 (publicKey.getD sig.publicKey) message sig.raw) ∧
    (sig.scheme = schnorrScheme → (sig.verify P message publicKey = .ok true ↔
      sig.raw.length = 64 ∧ sig.raw ≠ List.replicate 64 0)) := by
  refine ⟨?_, ?_, verify_schnorr_iff⟩
  · intro hscheme h
    obtain ⟨hlen, hverify⟩ := ecdsaVerify_of_verify hscheme h
    -- each half has 32 bytes, so its number is below `256 ^ 32`
    obtain ⟨hr, hs⟩ := lt_of_length hlen
    exact ⟨hlen, hR.ecdsa _ _ _ _ hr hs hverify⟩
  · intro hscheme h
    -- here the length is not checked by `verify`: it is part of the relation
    have hadmitted := hR.ed25519 _ _ _ ((verify_ed25519_iff hscheme).mp h)
    exact ⟨R.ed25519_length _ _ _ hadmitted, hadmitted⟩

end Sound

/-- Sixty-four ones under the Schnorr scheme, with no public key at all. -/
def ones : Signature := ⟨schnorrScheme, List.replicate 64 1, []⟩

/-- **The Schnorr branch is no verification.** The ones are accepted for two messages and without
a public key, which no relation over 32-byte keys admits. -/
theorem ones_accepted :
    ones.verify Primitives.toy [1] none = .ok true ∧
    ones.verify Primitives.toy [2] none = .ok true ∧
    ∀ bip340 : Bytes → Bytes → Bytes → Prop,
      (∀ pk digest raw, bip340 pk digest raw → pk.length = 32) →
      ¬ bip340 ones.publicKey (Primitives.toy.sha256 [1]) ones.raw := by
  have haccept : ∀ message, ones.verify Primitives.toy message none = .ok true := fun message =>
    (verify_schnorr_iff rfl).mpr ⟨List.length_replicate, by decide⟩
  refine ⟨haccept [1], haccept [2], fun bip340 hlen h => ?_⟩
  -- the public key of this signature is empty
  exact absurd (hlen _ _ _ h) (by decide)

/-! ### Completeness -/

/-- What the libraries promise about the signatures they make. -/
structure Primitives.SignsHonestly (P : Primitives) : Prop where
  ecdsa : ∀ k digest, digest.length = 32 → ∃ r s, 1 ≤ r ∧ r < groupOrder ∧ 1 ≤ s ∧
    s < groupOrder ∧ Der.IsSignature byteDigit (P.ecdsaSign k digest) r s ∧
    P.ecdsaVerify (P.compressedPublicKey k) (P.ecdsaSign k digest) digest = .ok true
  schnorr : ∀ k digest aux, digest.length = 32 → aux.length = 32 →
    (P.schnorrSign k digest aux).length = 64 ∧
      P.schnorrSign k digest aux ≠ List.replicate 64 0
  ed25519 : ∀ sk message, sk.length = 32 → (P.ed25519Sign sk message).length = 64 ∧
    P.ed25519Verify (P.ed25519PublicKey sk) (P.ed25519Sign sk message) message = .ok ()

namespace Signer

/-- The constructors leave an Ed25519 signer with a key of 32 bytes. -/
def Sized : Signer → Prop
  | .ed25519 sk => sk.length = 32
  | _ => True

/-- What `verify` accepts whether the public key comes from the signature or from the caller. -/
def Accepted (P : Primitives) (message : Bytes) (sig : Signature) : Prop :=
  ∀ key, key.getD sig.publicKey = sig.publicKey → sig.verify P message key = .ok true

section Complete

variable {P : Primitives} (hP : P.SignsHonestly) (message : Bytes) (w : World)
include hP

/-- The halves of an ECDSA signature are put together to the bytes coincurve returned. -/
theorem run_sign_secp256k (sk : Scalar) : ∃ raw,
    ((secp256k sk).sign P message).run w
      = .ok ⟨ecdsaScheme, raw, P.compressedPublicKey sk⟩ w ∧ raw.length = 64 ∧
    Accepted P message ⟨ecdsaScheme, raw, P.compressedPublicKey sk⟩ := by
  obtain ⟨r, s, -, hr, -, hs, hder, hverify⟩ :=
    hP.ecdsa sk (P.sha256 message) (P.sha256_length message)
  have hsign := ((Der.isSignature_iff byteDigit).mp hder).1
  have hread := derToRs_signature (lt_trans hr groupOrder_lt) (lt_trans hs groupOrder_lt)
  have hback := rsToDer_digits (lt_trans hr groupOrder_lt) (lt_trans hs groupOrder_lt)
  have hrlen := Radix.length_digits byteDigit 32 r
  have hslen := Radix.length_digits byteDigit 32 s
  rw [← hsign] at hread hback
  refine ⟨Radix.digits byteDigit 32 r ++ Radix.digits byteDigit 32 s, ?_, ?_, fun key hkey => ?_⟩
  · unfold sign signRaw
    simp only [EStateM.run_bind, Effect.run_liftM, hread]
    rfl
  · rw [List.length_append, hrlen, hslen]
  · refine (verify_ecdsa_iff rfl).mpr ⟨P.ecdsaSign sk (P.sha256 message), ?_, ?_⟩
    · rw [List.take_left' hrlen, List.drop_left' hrlen]
      exact hback
    · rw [hkey]
      exact hverify

theorem run_sign_secp256kSchnorr (sk : Scalar) : ∃ raw w',
    ((secp256kSchnorr sk).sign P message).run w
      = .ok ⟨schnorrScheme, raw, (P.compressedPublicKey sk).drop 1⟩ w' ∧ raw.length = 64 ∧
    Accepted P message ⟨schnorrScheme, raw, (P.compressedPublicKey sk).drop 1⟩ := by
  obtain ⟨hlen, hne⟩ := hP.schnorr sk (P.sha256 message) (w.random.take 32)
    (P.sha256_length message) (Stream'.length_take 32 w.random)
  refine ⟨_, { w with random := w.random.drop 32 }, ?_, hlen, fun key _ =>
    (verify_schnorr_iff rfl).mpr ⟨hlen, hne⟩⟩
  unfold sign signRaw
  simp only [EStateM.run_bind, run_tokenBytes w (by decide : (0 : ℤ) ≤ 32)]
  rfl

theorem run_sign_ed25519 {sk : Bytes} (hsk : sk.length = 32) :
    ((ed25519 sk).sign P message).run w
      = .ok ⟨ed25519Scheme, P.ed25519Sign sk message, P.ed25519PublicKey sk⟩ w ∧
    (P.ed25519Sign sk message).length = 64 ∧
    Accepted P message ⟨ed25519Scheme, P.ed25519Sign sk message, P.ed25519PublicKey sk⟩ := by
  obtain ⟨hlen, hverify⟩ := hP.ed25519 sk message hsk
  refine ⟨rfl, hlen, fun key hkey => (verify_ed25519_iff rfl).mpr ?_⟩
  rw [hkey]
  exact hverify

/-- **Signing and verifying.** A signer returns 64 bytes under its public key, and `verify` accepts
them. -/
theorem run_sign_accepted {signer : Signer} (hsize : signer.Sized) :
    ∃ sig w', (signer.sign P message).run w = .ok sig w' ∧ sig.raw.length = 64 ∧
      sig.publicKey = signer.publicKeyBytes P ∧ Accepted P message sig := by
  cases signer with
  | secp256k sk =>
    obtain ⟨raw, hrun, hlen, haccepted⟩ := run_sign_secp256k hP message w sk
    exact ⟨_, w, hrun, hlen, rfl, haccepted⟩
  | secp256kSchnorr sk =>
    obtain ⟨raw, w', hrun, hlen, haccepted⟩ := run_sign_secp256kSchnorr hP message w sk
    exact ⟨_, w', hrun, hlen, rfl, haccepted⟩
  | ed25519 sk =>
    obtain ⟨hrun, hlen, haccepted⟩ := run_sign_ed25519 hP message w hsize
    exact ⟨_, w, hrun, hlen, rfl, haccepted⟩

end Complete

end Signer

/-- The signatures of `toy` keep that promise. -/
theorem Primitives.toy_signsHonestly : Primitives.toy.SignsHonestly where
  ecdsa := by
    intro k digest hdigest
    have hk : (k : ℕ) < 256 ^ 32 := lt_trans k.2.2 groupOrder_lt
    have hbound : ∀ m : ℕ, m % 2 ^ 255 + 1 < groupOrder := by
      intro m
      have := Nat.mod_lt m (show 0 < 2 ^ 255 by norm_num)
      exact lt_of_le_of_lt this (by norm_num [groupOrder])
    have hwidth : ∀ m : ℕ, Der.width (m % 2 ^ 255 + 1) ≤ 33 := fun m =>
      Der.width_le (lt_trans (hbound m) groupOrder_lt)
    have hr := hwidth (intFromBytes digest)
    have hs := hwidth k
    refine ⟨intFromBytes digest % 2 ^ 255 + 1, k % 2 ^ 255 + 1, Nat.le_add_left 1 _, hbound _,
      Nat.le_add_left 1 _, hbound _, (Der.isSignature_iff byteDigit).mpr ⟨rfl, by omega⟩, ?_⟩
    -- the public key spells the secret one, so the verifier signs again and compares
    have hkey : intFromBytes ((Primitives.toy.compressedPublicKey k).drop 1) = k :=
      Radix.value_digits_of_lt byteDigit hk
    change Except.ok (decide (toyEcdsa k digest = toyEcdsa (intFromBytes
      ((Primitives.toy.compressedPublicKey k).drop 1)) digest)) = Except.ok true
    rw [hkey, decide_eq_true rfl]
  schnorr := by
    intro k digest aux hdigest _
    refine ⟨Radix.length_digits byteDigit 64 _, ?_⟩
    intro hzero
    have hlt : intFromBytes digest < 256 ^ digest.length := Radix.value_lt byteDigit digest
    rw [hdigest] at hlt
    have hvalue := congrArg (Radix.value byteDigit) hzero
    change Radix.value byteDigit (Radix.digits byteDigit 64 (intFromBytes digest + 1)) = _
      at hvalue
    rw [Radix.value_digits_of_lt byteDigit (by omega)] at hvalue
    exact absurd hvalue (Nat.succ_ne_zero _)
  ed25519 := by
    intro sk message hsk
    refine ⟨?_, if_pos ⟨hsk, rfl⟩⟩
    change (sk ++ sk).length = 64
    rw [List.length_append, hsk]

/-! ### Signatures that are accepted -/

/-- What the verifiers of `toy` are about: an ECDSA signature consists of the numbers that `toy`
signs with, an Ed25519 signature of the key, written twice. -/
def toyRelations : Relations where
  ecdsa pk digest r s :=
    r = intFromBytes digest % 2 ^ 255 + 1 ∧ s = intFromBytes (pk.drop 1) % 2 ^ 255 + 1
  ed25519 pk _ raw := pk.length = 32 ∧ raw = pk ++ pk
  ed25519_length := by
    rintro pk - raw ⟨hpk, rfl⟩
    rw [List.length_append, hpk]

theorem toyRelations_checkedBy : toyRelations.CheckedBy Primitives.toy where
  ecdsa := by
    intro pk digest r s hr hs hverify
    have hder : Der.signature byteDigit r s
        = Primitives.toyEcdsa (intFromBytes (pk.drop 1)) digest :=
      of_decide_eq_true (Except.ok.inj hverify)
    have hbound : ∀ m : ℕ, m % 2 ^ 255 + 1 < 256 ^ 32 := by
      intro m
      have := Nat.mod_lt m (show 0 < 2 ^ 255 by norm_num)
      exact lt_of_le_of_lt this (by norm_num)
    -- both encodings are read back, and digits of one width determine their number
    have hread := congrArg derToRs hder
    unfold Primitives.toyEcdsa at hread
    rw [derToRs_signature hr hs, derToRs_signature (hbound _) (hbound _)] at hread
    obtain ⟨hrdigits, hsdigits⟩ := Prod.ext_iff.mp (Except.ok.inj hread)
    exact ⟨Radix.digits_inj byteDigit hr (hbound _) hrdigits,
      Radix.digits_inj byteDigit hs (hbound _) hsdigits⟩
  ed25519 := by
    intro pk message raw hverify
    change (if pk.length = 32 ∧ raw = pk ++ pk then Except.ok ()
      else Except.error "InvalidSignature") = .ok () at hverify
    by_cases hraw : pk.length = 32 ∧ raw = pk ++ pk
    · exact hraw
    · rw [if_neg hraw] at hverify
      cases hverify

/-- A signature of each scheme that `verify` accepts for the message `[1]`. -/
theorem verify_eq_true_signed :
    (∃ sig : Signature, sig.scheme = ecdsaScheme ∧
      sig.verify Primitives.toy [1] none = .ok true ∧ sig.raw.length = 64 ∧
      toyRelations.ecdsa sig.publicKey (Primitives.toy.sha256 [1])
        (intFromBytes (sig.raw.take 32)) (intFromBytes (sig.raw.drop 32))) ∧
    (∃ sig : Signature, sig.scheme = ed25519Scheme ∧
      sig.verify Primitives.toy [1] none = .ok true ∧ sig.raw.length = 64 ∧
      toyRelations.ed25519 sig.publicKey [1] sig.raw) ∧
    (ones.verify Primitives.toy [1] none = .ok true ↔
      ones.raw.length = 64 ∧ ones.raw ≠ List.replicate 64 0) := by
  refine ⟨?_, ?_, (verify_eq_true toyRelations_checkedBy ones [1] none).2.2 rfl⟩
  · obtain ⟨raw, -, -, haccepted⟩ :=
      Signer.run_sign_secp256k Primitives.toy_signsHonestly [1] zeroWorld ⟨1, by decide⟩
    refine ⟨_, rfl, haccepted none rfl, ?_⟩
    exact (verify_eq_true toyRelations_checkedBy _ [1] none).1 rfl (haccepted none rfl)
  · obtain ⟨-, -, haccepted⟩ := Signer.run_sign_ed25519 Primitives.toy_signsHonestly [1] zeroWorld
      (show (List.replicate 32 (1 : UInt8)).length = 32 from List.length_replicate)
    refine ⟨_, rfl, haccepted none rfl, ?_⟩
    exact (verify_eq_true toyRelations_checkedBy _ [1] none).2.1 rfl (haccepted none rfl)

end KeystoneCrypto
