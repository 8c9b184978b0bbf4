import KeystoneCrypto.Mnemonic.Codec

/-!
# Spellings of one phrase

Validation and entropy look at the words of a phrase; equality and seed look at the string that
was stored, which `from_phrase` leaves as normalisation returned it. Two accepted strings with the
same words therefore give the same entropy, but they give equal mnemonics, and the mnemonic of
that entropy, only if both were written canonically: words joined by single spaces, nothing before
or after them.
-/

namespace KeystoneCrypto

/-- A string that is its own words joined by single spaces. -/
def Canonical (s : PyStr) : Prop := s = PyStr.joinSpace s.split

instance (s : PyStr) : Decidable (Canonical s) := inferInstanceAs (Decidable (s = _))

/-- What the words alone would determine: equal mnemonics, both the mnemonic of the entropy they
spell, with equal seeds under every passphrase. -/
structure SameWallet (P : Primitives) (m m' : Mnemonic) : Prop where
  eq : m = m'
  fromEntropy_eq : ∃ e, m.entropy = .ok e ∧
    Mnemonic.fromEntropy P e = .ok m ∧ Mnemonic.fromEntropy P e = .ok m'
  seed_eq : ∀ passphrase, m.seed P passphrase = m'.seed P passphrase

section Spelling

variable {P : Primitives} {p q : PyStr} {m m' : Mnemonic}

/-- Re-encoding the entropy of an accepted string gives its canonical spelling. -/
theorem fromEntropy_of_fromPhrase (h : Mnemonic.fromPhrase P p = .ok m) :
    m.phrase = P.nfkd p ∧ ∃ e, m.entropy = .ok e ∧
      Mnemonic.fromEntropy P e = .ok ⟨PyStr.joinSpace (P.nfkd p).split⟩ := by
  obtain ⟨rfl, e, he⟩ := fromPhrase_eq_ok_iff_spells.mp h
  obtain ⟨k, -, h₂, hlen, hsplit⟩ := spells_iff.mp he
  refine ⟨rfl, e, he.entropy_eq, ?_⟩
  rw [KeystoneCrypto.fromEntropy_eq (by omega) hlen, hsplit]

/-- **Spelling.** Two accepted strings with the same words are the same wallet exactly if both are
canonical after normalisation. -/
theorem sameWallet_iff_canonical (hp : Mnemonic.fromPhrase P p = .ok m)
    (hq : Mnemonic.fromPhrase P q = .ok m') (hwords : (P.nfkd p).split = (P.nfkd q).split) :
    SameWallet P m m' ↔ Canonical (P.nfkd p) ∧ Canonical (P.nfkd q) := by
  obtain ⟨hm, e, he, hcode⟩ := fromEntropy_of_fromPhrase hp
  have hm' : m'.phrase = P.nfkd q := (fromEntropy_of_fromPhrase hq).1
  unfold Canonical
  refine ⟨?_, ?_⟩
  · rintro ⟨heq, ⟨e', he', hback, -⟩, -⟩
    -- the entropy spells the canonical string, so the stored one is canonical
    rw [he, Except.ok.injEq] at he'
    rw [← he', hcode, Except.ok.injEq] at hback
    have hcp : P.nfkd p = PyStr.joinSpace (P.nfkd p).split :=
      hm.symm.trans (congrArg Mnemonic.phrase hback).symm
    refine ⟨hcp, ?_⟩
    rw [← hwords, ← hcp, ← hm, ← hm', heq]
  · -- canonical strings with the same words are one string
    rintro ⟨hcp, hcq⟩
    have heq : m = m' := by
      refine Mnemonic.ext ?_
      rw [hm, hm', hcp, hcq, hwords]
    have hback : Mnemonic.fromEntropy P e = .ok m := by
      rw [hcode, ← hcp, ← hm]
    exact ⟨heq, ⟨e, he, hback, heq ▸ hback⟩, fun passphrase => by rw [heq]⟩

end Spelling

/-! ### A trailing newline -/

/-- The words of sixteen zero bytes. -/
def zeroPhrase : PyStr := PyStr.ofString
  "abandon abandon abandon abandon abandon abandon abandon abandon abandon abandon abandon about"

/-- The same words, pasted with the line they came on. -/
def zeroLine : PyStr := zeroPhrase ++ PyStr.ofString "\n"

theorem split_zeroPhrase :
    zeroPhrase.split = wordsOf Primitives.toy 4 (List.replicate 16 0) := by
  decide +kernel

theorem split_zeroLine : zeroLine.split = zeroPhrase.split := by
  decide +kernel

theorem fromPhrase_zeroPhrase :
    Mnemonic.fromPhrase Primitives.toy zeroPhrase = .ok ⟨zeroPhrase⟩ :=
  fromPhrase_eq_ok_iff.mpr
    ⟨rfl, 4, List.replicate 16 0, le_rfl, by decide, rfl, split_zeroPhrase⟩

theorem fromPhrase_zeroLine :
    Mnemonic.fromPhrase Primitives.toy zeroLine = .ok ⟨zeroLine⟩ :=
  fromPhrase_eq_ok_iff.mpr
    ⟨rfl, 4, List.replicate 16 0, le_rfl, by decide, rfl, split_zeroLine.trans split_zeroPhrase⟩

theorem sameWallet_iff_canonical_zeroLine :
    SameWallet Primitives.toy ⟨zeroPhrase⟩ ⟨zeroLine⟩ ↔
      Canonical zeroPhrase ∧ Canonical zeroLine :=
  sameWallet_iff_canonical fromPhrase_zeroPhrase fromPhrase_zeroLine split_zeroLine.symm

/-- **Two wallets for one phrase.** The trailing newline changes mnemonic and seed, not entropy. -/
theorem zeroLine_differs :
    Mnemonic.fromPhrase Primitives.toy zeroPhrase = .ok ⟨zeroPhrase⟩ ∧
    Mnemonic.fromPhrase Primitives.toy zeroLine = .ok ⟨zeroLine⟩ ∧
    zeroLine.split = zeroPhrase.split ∧
    (⟨zeroPhrase⟩ : Mnemonic) ≠ ⟨zeroLine⟩ ∧
    (⟨zeroPhrase⟩ : Mnemonic).seed Primitives.toy [] ≠
      (⟨zeroLine⟩ : Mnemonic).seed Primitives.toy [] := by
  refine ⟨fromPhrase_zeroPhrase, fromPhrase_zeroLine, split_zeroLine, by decide +kernel, ?_⟩
  decide +kernel

end KeystoneCrypto
