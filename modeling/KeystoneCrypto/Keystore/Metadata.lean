import KeystoneCrypto.Keystore.Recovery

/-!
# The metadata of a keystore object

`create` writes the metadata of a keystore twice: `pack` puts the reading of the clock and the flag
into the plaintext and the parameters into the header, and `create` itself fills the fields of the
object it returns. The parameters and the flag are the same ones in both places. The timestamp of
the object is zero, whatever the clock said (`describesBlob_iff`).
-/

namespace KeystoneCrypto

/-- The fields of the object are what its blob holds: unpacking gives its flag and its timestamp,
and the header gives its parameters. -/
def Keystore.DescribesBlob (P : Primitives) (ks : Keystore) (password : SecretBytes) : Prop :=
  ∀ w, ∃ u w', (Envelope.unpack P ks.blob password).run w = .ok u w' ∧
    u.createdAt = ks.createdAt ∧ u.hasPassphrase = ks.hasPassphrase ∧
    Envelope.unpackKdfParams (sliceFromTo ks.blob offKdf (offKdf + 32)) = .ok ks.params

section Metadata

variable {P : Primitives} {m : Mnemonic} {password : PyStr} {params : Argon2Params}
  {hasPassphrase : Bool} {w w' : World} {ks : Keystore} {pw : SecretBytes}

/-- The parameter block of a readable blob is that of its header. -/
theorem unpackKdfParams_of_readable {blob : Bytes} (h : Envelope.Readable blob) :
    Envelope.unpackKdfParams (sliceFromTo blob offKdf (offKdf + 32))
      = .ok (Envelope.header blob).params := by
  have hlen := h.length_ge
  unfold Envelope.unpackKdfParams offKdf
  rw [raiseIf_neg (by rw [length_sliceFromTo]; omega)]
  rfl

/-- What the blob of a created keystore holds. -/
theorem run_unpack_created (hP : P.AesGcmUndoes) (hsalt : params.saltLen = 16)
    (hpw : Encodes password pw)
    (h : (Keystore.create P m password params hasPassphrase).run w = .ok ks w') (w₁ : World) :
    ∃ u w₂, (Envelope.unpack P ks.blob pw).run w₁ = .ok u w₂ ∧ u.createdAt = w.clock.head ∧
      u.hasPassphrase = ks.hasPassphrase ∧
      Envelope.unpackKdfParams (sliceFromTo ks.blob offKdf (offKdf + 32)) = .ok ks.params := by
  obtain ⟨-, pw', e, hpw', -, s, -, -, rfl⟩ := Keystore.sealing_of_run_create h
  -- the blob is a sealing under this password, and a sealing opens
  obtain rfl := hpw.unique hpw'
  refine ⟨_, _, s.run_unpack_blob hsalt (s.opens_of_undoes hP) w₁, rfl, rfl, ?_⟩
  rw [unpackKdfParams_of_readable (s.readable hsalt), s.header_blob hsalt]

/-- **When a keystore describes its blob.** Flag and parameters always agree; the timestamp does
exactly if the clock read zero. -/
theorem describesBlob_iff (hP : P.AesGcmUndoes) (hsalt : params.saltLen = 16)
    (hpw : Encodes password pw)
    (h : (Keystore.create P m password params hasPassphrase).run w = .ok ks w') :
    (ks.DescribesBlob P pw ↔ w.clock.head = 0) ∧
    ∀ w₁, ∃ u w₂, (Envelope.unpack P ks.blob pw).run w₁ = .ok u w₂ ∧
      u.createdAt = w.clock.head ∧ u.hasPassphrase = ks.hasPassphrase ∧
      Envelope.unpackKdfParams (sliceFromTo ks.blob offKdf (offKdf + 32)) = .ok ks.params := by
  have hunpack := run_unpack_created hP hsalt hpw h
  have hzero : ks.createdAt = 0 := by
    obtain ⟨-, _, _, -, -, _, -, -, rfl⟩ := Keystore.sealing_of_run_create h
    rfl
  refine ⟨⟨fun hdescribes => ?_, fun hclock w₁ => ?_⟩, hunpack⟩
  -- the blob is unpacked in one way only, so the two readings are equal
  · obtain ⟨u, w₂, hrun, hcreated, -⟩ := hdescribes w
    obtain ⟨u', w₂', hrun', hcreated', -⟩ := hunpack w
    cases hrun.symm.trans hrun'
    rw [← hcreated', hcreated, hzero]
  · obtain ⟨u, w₂, hrun, hcreated, hflag, hparams⟩ := hunpack w₁
    exact ⟨u, w₂, hrun, by rw [hcreated, hclock, hzero], hflag, hparams⟩

end Metadata

/-- The keystore of the sixteen zero bytes can be created whenever the clock fits its field. -/
theorem exists_create_zeroPhrase {w : World} (h₁ : -2 ^ 63 ≤ w.clock.head)
    (h₂ : w.clock.head < 2 ^ 63) : ∃ ks w', (Keystore.create Primitives.toy ⟨zeroPhrase⟩
      (PyStr.ofString "pw") interactiveProfile false).run w = .ok ks w' := by
  obtain ⟨ks, w', h, -⟩ := exists_create Primitives.toy_undoes zeroPhrase_entropy
    (show (List.replicate 16 (0 : UInt8)).length ≤ 255 by decide) (by decide) encodes_pw
    profiles_public.1 rfl rfl false h₁ h₂
  exact ⟨ks, w', h⟩

theorem describesBlob_iff_zeroPhrase : ∃ ks w',
    (Keystore.create Primitives.toy ⟨zeroPhrase⟩ (PyStr.ofString "pw") interactiveProfile
      false).run zeroWorld = .ok ks w' ∧
    (ks.DescribesBlob Primitives.toy pwWrapper ↔ zeroWorld.clock.head = 0) ∧
    ∀ w₁, ∃ u w₂, (Envelope.unpack Primitives.toy ks.blob pwWrapper).run w₁ = .ok u w₂ ∧
      u.createdAt = zeroWorld.clock.head ∧ u.hasPassphrase = ks.hasPassphrase ∧
      Envelope.unpackKdfParams (sliceFromTo ks.blob offKdf (offKdf + 32)) = .ok ks.params := by
  obtain ⟨ks, w', h⟩ := exists_create_zeroPhrase (w := zeroWorld) (by decide) (by decide)
  exact ⟨ks, w', h, describesBlob_iff Primitives.toy_undoes rfl encodes_pw h⟩

/-- A machine whose clock reads one. -/
def secondWorld : World := .fresh (Stream'.const 0) (Stream'.const 1)

/-- **Two timestamps.** Created at the time 1, the object says 0 and its blob says 1. -/
theorem created_at_one : ∃ ks w',
    (Keystore.create Primitives.toy ⟨zeroPhrase⟩ (PyStr.ofString "pw") interactiveProfile
      false).run secondWorld = .ok ks w' ∧ ks.createdAt = 0 ∧
    (∃ u w₂, (Envelope.unpack Primitives.toy ks.blob pwWrapper).run w' = .ok u w₂ ∧
      u.createdAt = 1) ∧
    ¬ ks.DescribesBlob Primitives.toy pwWrapper := by
  obtain ⟨ks, w', h⟩ := exists_create_zeroPhrase (w := secondWorld) (by decide) (by decide)
  obtain ⟨u, w₂, hrun, hcreated, -⟩ := run_unpack_created Primitives.toy_undoes rfl encodes_pw h w'
  have hone : u.createdAt = 1 := hcreated
  have hzero : ks.createdAt = 0 := by
    obtain ⟨-, _, _, -, -, _, -, -, rfl⟩ := Keystore.sealing_of_run_create h
    rfl
  refine ⟨ks, w', h, hzero, ⟨u, w₂, hrun, hone⟩, fun hdescribes => ?_⟩
  obtain ⟨u', w₂', hrun', hcreated', -⟩ := hdescribes w'
  cases hrun.symm.trans hrun'
  rw [hone, hzero] at hcreated'
  cases hcreated'

end KeystoneCrypto
