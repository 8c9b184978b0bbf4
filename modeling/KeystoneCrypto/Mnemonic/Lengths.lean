import KeystoneCrypto.Mnemonic.Codec

/-!
# Entropies of other lengths

`from_entropy` does not look at the length of the entropy. Whatever it is, the loop cuts the bits
into words, the last of which may have been made from fewer than eleven bits. `from_phrase` and
`entropy` take every word for eleven bits. So what is encoded comes back exactly if the length is
one of the five sizes of BIP-39 (`lossless_iff_mem_entropySizes`); `generate_entropy`, which checks
for multiples of eight bits only, hands out twelve lengths that do not come back.
-/

namespace KeystoneCrypto

/-- Encoding keeps the entropy: the phrase is accepted, and the property `entropy` returns what was
encoded. -/
def Lossless (P : Primitives) (e : SecretBytes) : Prop :=
  ∀ m, Mnemonic.fromEntropy P e = .ok m →
    (∃ m', Mnemonic.fromPhrase P m.phrase = .ok m') ∧ m.entropy = .ok e

section Lengths

variable (P : Primitives)

/-- No length is refused. -/
theorem exists_sentence_of_fromEntropy (e : SecretBytes) : ∃ words,
    (∀ w ∈ words, w ∈ englishWordlist) ∧
      Mnemonic.fromEntropy P e = .ok ⟨PyStr.joinSpace words⟩ := by
  set bits := zfill (e.buf.length * 8) (bin (intFromBytes e.buf))
    ++ checksum P e.buf (e.buf.length * 8 / 32) with hbits
  have hword : ∀ i ∈ rangeStep bits.length 11, (do
      let n ← intBase2 (sliceFromTo bits i (i + 11))
      indexAt englishWordlist n)
      = .ok (wordAt (Radix.value bitDigit (sliceFromTo bits i (i + 11)))) := by
    intro i hi
    obtain ⟨j, hj, rfl⟩ := List.mem_map.mp hi
    refine word_of_slice ?_
    have hlt := List.mem_range.mp hj
    omega
  refine ⟨(rangeStep bits.length 11).map fun i =>
    wordAt (Radix.value bitDigit (sliceFromTo bits i (i + 11))), ?_, ?_⟩
  · intro w hw
    obtain ⟨i, -, rfl⟩ := List.mem_map.mp hw
    exact wordAt_mem (value_slice_lt bits i)
  · unfold Mnemonic.fromEntropy
    simp only [← hbits, Effect.mapM_eq_ok_map hword]
    rfl

/-- Normalisation leaves words and spaces as they are. -/
theorem nfkd_joinSpace {words : List PyStr} (h : ∀ w ∈ words, w ∈ englishWordlist) :
    P.nfkd (PyStr.joinSpace words) = PyStr.joinSpace words := by
  refine P.nfkd_ascii _ ?_
  intro c hc
  rcases Text.mem_join hc with rfl | ⟨w, hw, hc⟩
  · decide
  · have hletter := (englishWordlist_letters (h w hw)).2 c hc
    omega

/-- **The lengths that come back** are the five sizes of an entropy. -/
theorem lossless_iff_mem_entropySizes (e : SecretBytes) :
    Lossless P e ↔ e.buf.length ∈ entropySizes := by
  obtain ⟨words, hwords, hcode⟩ := exists_sentence_of_fromEntropy P e
  have hnfkd := nfkd_joinSpace P hwords
  refine ⟨?_, ?_⟩
  · intro h
    obtain ⟨⟨m', hm'⟩, hback⟩ := h _ hcode
    -- an accepted phrase spells an entropy of one of the sizes, and that is what comes back
    obtain ⟨-, e', he'⟩ := fromPhrase_eq_ok_iff_spells.mp hm'
    have hsame : e' = e := by
      have hback' := he'.entropy_eq
      rw [hnfkd] at hback'
      exact Except.ok.inj (hback'.symm.trans hback)
    exact hsame ▸ he'.1
  · intro hsize m hm
    cases hcode.symm.trans hm
    have hspells : Spells P (PyStr.joinSpace words) e :=
      ⟨hsize, _, hcode, congrArg PyStr.split hnfkd⟩
    have hback := hspells.entropy_eq
    rw [hnfkd] at hback
    exact ⟨⟨_, fromPhrase_eq_ok_iff_spells.mpr ⟨rfl, e, hspells⟩⟩, hback⟩

/-- Of the sizes `generate_entropy` hands out, those of `generate` come back. -/
theorem lossless_generateEntropy_iff {bits : ℤ} {w w' : World} {e : SecretBytes}
    (h : (generateEntropy bits).run w = .ok e w') : Lossless P e ↔ bits ∈ strengthBits := by
  unfold generateEntropy at h
  obtain ⟨_, _, hmul, h⟩ := Effect.run_bind_eq_ok_iff.mp h
  obtain ⟨_, _, hrange, h⟩ := Effect.run_bind_eq_ok_iff.mp h
  obtain ⟨b, _, hb, h⟩ := Effect.run_bind_eq_ok_iff.mp h
  have hmul := raiseIf_eq_ok_iff.mp (Effect.run_liftM_eq_ok_iff.mp hmul).1
  have hrange := raiseIf_eq_ok_iff.mp (Effect.run_liftM_eq_ok_iff.mp hrange).1
  obtain ⟨-, hdrawn, -⟩ := run_tokenBytes_eq_ok_iff.mp hb
  have hbuf := SecretBytes.new_eq_ok_iff.mp (Effect.run_liftM_eq_ok_iff.mp h).1
  have hlen : e.buf.length = (bits / 8).toNat := by
    rw [hbuf, hdrawn, Stream'.length_take]
  rw [lossless_iff_mem_entropySizes, hlen]
  unfold entropySizes strengthBits
  simp only [List.mem_cons, List.not_mem_nil, or_false]
  omega

end Lengths

/-! ### Seventeen bytes -/

/-- What `generate_entropy(136)` returns when the random bytes are ones. -/
def onesEntropy : SecretBytes := ⟨List.replicate 17 1, by decide⟩

/-- The thirteen words that `from_entropy` makes of it. -/
def onesPhrase : PyStr := PyStr.ofString
  "absurd amount doctor acoustic avoid letter advice cage absurd amount doctor acoustic acoustic"

/-- The indices of these words. -/
def onesIndices : List ℕ := [8, 64, 514, 16, 128, 1028, 32, 257, 8, 64, 514, 16, 16]

theorem lookupAll_onesPhrase : lookupAll onesPhrase.split = .ok onesIndices := by
  refine lookupAll_eq_ok_iff.mpr ⟨by decide, ?_⟩
  decide +kernel

/-- **Entropy is lost.** Seventeen random bytes are encoded, `from_phrase` refuses the phrase, and
the property `entropy` returns seventeen other bytes. -/
theorem onesEntropy_lost :
    (∃ w, (generateEntropy 136).run (.fresh (Stream'.const 1) (Stream'.const 0))
      = .ok onesEntropy w) ∧
    Mnemonic.fromEntropy Primitives.toy onesEntropy = .ok ⟨onesPhrase⟩ ∧
    (∀ m, Mnemonic.fromPhrase Primitives.toy onesPhrase ≠ .ok m) ∧
    (⟨onesPhrase⟩ : Mnemonic).entropy = .ok ⟨List.replicate 16 8 ++ [1], by decide⟩ := by
  have hcount : onesPhrase.split.length = 13 := by decide +kernel
  refine ⟨⟨_, rfl⟩, by decide +kernel, ?_, ?_⟩
  · intro m hm
    -- thirteen is no number of words
    obtain ⟨-, k, ent, -, -, -, hwords⟩ := fromPhrase_eq_ok_iff.mp hm
    have hlen : onesPhrase.split.length = 3 * k :=
      (congrArg List.length hwords).trans (length_wordsOf (P := Primitives.toy))
    omega
  · -- the seventeen bytes are read from the first 139 bits of the words
    have hbits : (sliceDropEnd (onesIndices.flatMap wordBits) 4).length = 139 := by
      decide +kernel
    have hnumber : intBase2 (sliceDropEnd (onesIndices.flatMap wordBits) 4)
        = .ok 0x0808080808080808080808080808080801 := by
      decide +kernel
    have hchecksum : (⟨onesPhrase⟩ : Mnemonic).phrase.split.length * 11 / 33 = 4 := by
      rw [hcount]
    rw [entropy_of_lookupAll ⟨onesPhrase⟩ lookupAll_onesPhrase hchecksum, hnumber, hbits,
      Effect.ok_bind]
    decide +kernel

end KeystoneCrypto
