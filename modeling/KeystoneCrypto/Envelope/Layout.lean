import KeystoneCrypto.Envelope.Failures
import KeystoneCrypto.Envelope.RoundTrip

/-!
# The layout of a plaintext

`pack` writes a plaintext in one way: length byte, seed, timestamp, a flag of 0 or 1, six zero
bytes. `_unpack_plaintext` checks that the plaintext is long enough for what its first byte says. It
does not look at the other bits of the flags byte, at the reserved bytes and at whatever is behind
them, and it leaves an empty seed to `SecretBytes`. So the plaintexts on which it keeps to the
layout are the short ones, which it refuses, and those that `pack` writes
(`unpackPlaintext_strict_iff`).
-/

namespace KeystoneCrypto

namespace Envelope

/-- The layout of the documentation, for a seed that `SecretBytes` can hold. -/
def IsLayout (plaintext : Bytes) : Prop :=
  ∃ seed stamp flag, plaintext
      = UInt8.ofNat seed.length :: (seed ++ stamp ++ flag :: List.replicate 6 0) ∧
    seed ≠ [] ∧ seed.length ≤ 255 ∧ stamp.length = 8 ∧ (flag = 0 ∨ flag = 1)

/-- Too short for the fields of a plaintext with a seed as long as the first byte says. -/
def Short (plaintext : Bytes) : Prop := plaintext.length < 16 + (plaintext.headD 0).toNat

/-- The reader keeps to the layout: it refuses the plaintext with the error of the module, or what
it returns is packed into this plaintext again. -/
def UnpacksStrictly (plaintext : Bytes) : Prop :=
  (∃ e, unpackPlaintext plaintext = .error e ∧ e.type = .keystoreDecryptionError) ∨
    ∃ u, unpackPlaintext plaintext = .ok u ∧
      packPlaintext u.seed u.createdAt u.hasPassphrase = .ok plaintext

/-- What `pack` writes has the layout. -/
theorem isLayout_of_packPlaintext {seed : SecretBytes} {ts : ℤ} {hasPassphrase : Bool}
    {plaintext : Bytes} (h : packPlaintext seed ts hasPassphrase = .ok plaintext) :
    IsLayout plaintext := by
  have hseed : seed.buf.length ≤ 255 := by
    -- a longer seed has no length byte
    by_contra hlong
    unfold packPlaintext bytesOfInt at h
    rw [raiseIf_pos (.inr (by omega))] at h
    cases h
  obtain ⟨stamp, hstamp, rfl⟩ := (packPlaintext_eq_ok_iff hseed).mp h
  refine ⟨seed.buf, stamp, _, rfl, seed.nonempty, hseed, length_of_packI64 hstamp, ?_⟩
  cases hasPassphrase with
  | false => exact .inl rfl
  | true => exact .inr rfl

/-- And whatever has the layout is written by `pack`. -/
theorem exists_packPlaintext {plaintext : Bytes} (h : IsLayout plaintext) :
    ∃ seed ts hasPassphrase, seed.buf.length ≤ 255 ∧
      packPlaintext seed ts hasPassphrase = .ok plaintext := by
  obtain ⟨seed, stamp, flag, rfl, hne, hseed, hlen, hflag⟩ := h
  obtain ⟨ts, hts⟩ := exists_packI64 hlen
  refine ⟨⟨seed, hne⟩, ts, flag == 1, hseed, (packPlaintext_eq_ok_iff hseed).mpr ⟨stamp, hts, ?_⟩⟩
  rcases hflag with rfl | rfl <;> rfl

theorem unpackPlaintext_of_isShort {plaintext : Bytes} (h : Short plaintext) :
    ∃ e, unpackPlaintext plaintext = .error e ∧ e.type = .keystoreDecryptionError := by
  cases plaintext with
  | nil => exact ⟨_, rfl, rfl⟩
  | cons b l => exact unpackPlaintext_of_short h

/-- The others are accepted, unless their first byte is zero. -/
theorem unpackPlaintext_of_not_short {plaintext : Bytes} (h : ¬ Short plaintext) :
    (plaintext.head? = some 0 ∧
      ∃ e, unpackPlaintext plaintext = .error e ∧ e.type = .valueError) ∨
    (plaintext.head? ≠ some 0 ∧ ∃ u, unpackPlaintext plaintext = .ok u) := by
  unfold Short at h
  cases plaintext with
  | nil => exact absurd (by decide) h
  | cons b l =>
    -- a first byte of zero leaves an empty slice, which `SecretBytes` refuses
    rw [List.headD_cons, Nat.not_lt] at h
    by_cases hb : b = 0
    · subst hb
      exact .inl ⟨rfl, _, unpackPlaintext_zero (Nat.le_of_succ_le_succ h), rfl⟩
    · exact .inr ⟨fun hhead => hb (Option.some.inj hhead), exists_unpackPlaintext hb h⟩

/-- The accepted plaintexts. -/
theorem exists_unpackPlaintext_iff {plaintext : Bytes} :
    (∃ u, unpackPlaintext plaintext = .ok u) ↔ ¬ Short plaintext ∧ plaintext.head? ≠ some 0 := by
  by_cases hshort : Short plaintext
  · obtain ⟨e, he, -⟩ := unpackPlaintext_of_isShort hshort
    refine iff_of_false ?_ fun h => h.1 hshort
    rintro ⟨u, hu⟩
    cases hu.symm.trans he
  · rcases unpackPlaintext_of_not_short hshort with ⟨hhead, e, he, -⟩ | ⟨hhead, hu⟩
    · refine iff_of_false ?_ fun h => h.2 hhead
      rintro ⟨u, hu⟩
      cases hu.symm.trans he
    · exact iff_of_true hu ⟨hshort, hhead⟩

/-- **When a plaintext has one encoding.** The reader keeps to the layout exactly on the plaintexts
that are too short for their first byte and on those that have the layout. -/
theorem unpackPlaintext_strict_iff (plaintext : Bytes) :
    UnpacksStrictly plaintext ↔ Short plaintext ∨ IsLayout plaintext := by
  refine ⟨fun h => ?_, ?_⟩
  · by_cases hshort : Short plaintext
    · exact .inl hshort
    rcases h with ⟨e, he, htype⟩ | ⟨u, -, hback⟩
    · -- long enough, it is not refused with this error
      rcases unpackPlaintext_of_not_short hshort with ⟨-, e', he', htype'⟩ | ⟨-, u, hu⟩
      · cases he.symm.trans he'
        cases htype.symm.trans htype'
      · cases he.symm.trans hu
    · exact .inr (isLayout_of_packPlaintext hback)
  · rintro (hshort | hlayout)
    · exact .inl (unpackPlaintext_of_isShort hshort)
    · obtain ⟨seed, ts, hasPassphrase, hseed, hpack⟩ := exists_packPlaintext hlayout
      exact .inr ⟨_, unpackPlaintext_of_packPlaintext hseed hpack, hpack⟩

/-- **Several encodings of one plaintext.** A flags byte of 2, reserved bytes and a byte behind them
make no difference, and a seed of length zero raises `ValueError`. -/
theorem unpackPlaintext_lax :
    (∀ plaintext ∈ [1 :: 7 :: List.replicate 15 0,
        1 :: 7 :: (List.replicate 8 0 ++ 2 :: List.replicate 6 0),
        1 :: 7 :: (List.replicate 9 0 ++ List.replicate 6 9), 1 :: 7 :: List.replicate 16 0],
      unpackPlaintext plaintext = .ok ⟨⟨[7], by simp⟩, false, 0⟩) ∧
    unpackPlaintext (List.replicate 16 0)
      = .error ⟨.valueError, [.lit "SecretBytes cannot be empty"]⟩ ∧
    ¬ ∀ plaintext, UnpacksStrictly plaintext := by
  have hzero : unpackPlaintext (List.replicate 16 0)
      = .error ⟨.valueError, [.lit "SecretBytes cannot be empty"]⟩ := rfl
  refine ⟨by decide, hzero, fun h => ?_⟩
  rcases h (List.replicate 16 0) with ⟨e, he, htype⟩ | ⟨u, hu, -⟩
  · cases he.symm.trans hzero
    cases htype
  · cases hu.symm.trans hzero

end Envelope

end KeystoneCrypto
