import KeystoneCrypto.Mnemonic.Lengths

/-!
# How much the checksum catches

The last word of a phrase of `3 * k` words spells the last `11 - k` bits of the entropy and the `k`
bits of the checksum. All other words fixed, each choice of those bits of the entropy is completed
by one checksum. So of the 2048 words of the list exactly `2 ^ (11 - k)` are accepted in the last
place, whichever words come before (`countP_lastWord`): 128 for twelve words, 8 for twenty-four.
-/

namespace KeystoneCrypto

section LastWord

variable {P : Primitives} {k : ℕ} {indices : List ℕ}

/-- The checksum that completes a phrase, given the bits of the entropy in its last word. -/
def completion (P : Primitives) (k : ℕ) (indices : List ℕ) (a : ℕ) : ℕ :=
  Radix.value bitDigit (checksum P
    (bytesOfBits k (indices.flatMap wordBits ++ zfill (11 - k) (bin a))) k)

theorem completion_lt (hk : k ≤ 256) (a : ℕ) : completion P k indices a < 2 ^ k := by
  have h := Radix.value_lt bitDigit (checksum P
    (bytesOfBits k (indices.flatMap wordBits ++ zfill (11 - k) (bin a))) k)
  rwa [length_checksum P _ hk] at h

/-- The bits of a phrase, cut where the checksum begins. -/
theorem split_bits (h₁ : 4 ≤ k) (h₂ : k ≤ 8) (hlt : ∀ i ∈ indices, i < 2048)
    (hlen : indices.length + 1 = 3 * k) {j : ℕ} (hj : j < 2048) :
    ((indices ++ [j]).flatMap wordBits).take (32 * k)
        = indices.flatMap wordBits ++ zfill (11 - k) (bin (j / 2 ^ k)) ∧
      ((indices ++ [j]).flatMap wordBits).drop (32 * k) = Radix.digits bitDigit k j := by
  -- the high bits of the last word still belong to the entropy
  have hhigh : j / 2 ^ k < 2 ^ (11 - k) := by
    refine Nat.div_lt_of_lt_mul ?_
    rwa [← pow_add, Nat.add_sub_cancel' (by omega)]
  rw [zfill_bin (by omega) hhigh]
  have hfront : (indices.flatMap wordBits ++ Radix.digits bitDigit (11 - k) (j / 2 ^ k)).length
      = 32 * k := by
    rw [List.length_append, length_flatMap_wordBits hlt, Radix.length_digits]
    omega
  have hbits : (indices ++ [j]).flatMap wordBits
      = (indices.flatMap wordBits ++ Radix.digits bitDigit (11 - k) (j / 2 ^ k))
        ++ Radix.digits bitDigit k j := by
    rw [List.flatMap_append, List.flatMap_singleton, wordBits_eq hj, List.append_assoc,
      ← Radix.digits_add, Nat.sub_add_cancel (by omega)]
  rw [hbits]
  exact ⟨List.take_left' hfront, List.drop_left' hfront⟩

/-- **The last word.** It is accepted exactly if its low bits are the checksum of the others. -/
theorem fromPhrase_lastWord_iff (h₁ : 4 ≤ k) (h₂ : k ≤ 8) (hlt : ∀ i ∈ indices, i < 2048)
    (hlen : indices.length + 1 = 3 * k) {j : ℕ} (hj : j < 2048) :
    (Mnemonic.fromPhrase P (PyStr.joinSpace ((indices ++ [j]).map wordAt))).isOk = true ↔
      j % 2 ^ k = completion P k indices (j / 2 ^ k) := by
  have hall : ∀ i ∈ indices ++ [j], i < 2048 := by
    intro i hi
    rcases List.mem_append.mp hi with hi | hi
    · exact hlt i hi
    · rwa [List.mem_singleton.mp hi]
  have hmem : ∀ w ∈ (indices ++ [j]).map wordAt, w ∈ englishWordlist := by
    intro w hw
    obtain ⟨i, hi, rfl⟩ := List.mem_map.mp hw
    exact wordAt_mem (hall i hi)
  -- words are left alone by normalisation and by splitting
  have hsplit : (P.nfkd (PyStr.joinSpace ((indices ++ [j]).map wordAt))).split
      = (indices ++ [j]).map wordAt := by
    rw [nfkd_joinSpace P hmem, split_joinSpace hmem]
  have hcount : ((indices ++ [j]).map wordAt).length = 3 * k := by
    rw [List.length_map, List.length_append, List.length_singleton, hlen]
  obtain ⟨htake, hdrop⟩ := split_bits h₁ h₂ hlt hlen hj
  -- what is left of `from_phrase` is the comparison of two strings of `k` bits
  rw [fromPhrase_of_lookupAll h₁ h₂ (by rw [hsplit, hcount])
    (by rw [hsplit]; exact lookupAll_eq_ok_iff.mpr ⟨hall, rfl⟩), htake, hdrop]
  have hcs := length_checksum P (bytesOfBits k (indices.flatMap wordBits
    ++ zfill (11 - k) (bin (j / 2 ^ k)))) (show k ≤ 256 by omega)
  have hvalue : j % 2 ^ k = completion P k indices (j / 2 ^ k) ↔
      checksum P (bytesOfBits k (indices.flatMap wordBits
        ++ zfill (11 - k) (bin (j / 2 ^ k)))) k = Radix.digits bitDigit k j := by
    unfold completion
    rw [← Radix.value_digits bitDigit k j]
    refine ⟨?_, ?_⟩
    · intro h
      -- strings of one length are equal if their values are
      exact Radix.value_inj bitDigit (hcs.trans (Radix.length_digits _ _ _).symm) h.symm
    · intro h
      rw [h]
  rw [hvalue]
  unfold raiseIf raise
  split
  · next h => exact iff_of_false Bool.false_ne_true h
  · next h => exact iff_of_true rfl (not_not.mp h)

/-- The list is the list of its words by their indices. -/
theorem map_wordAt_range : (List.range 2048).map wordAt = englishWordlist := by
  refine List.ext_getElem? fun i => ?_
  rw [List.getElem?_map]
  by_cases hi : i < 2048
  · rw [List.getElem?_range hi, wordAt_eq hi]
    rfl
  · rw [List.getElem?_eq_none (by rw [List.length_range]; omega),
      List.getElem?_eq_none (by rw [length_englishWordlist]; omega)]
    rfl

/-- **How many last words are accepted.** -/
theorem countP_lastWord (P : Primitives) {k : ℕ} (h₁ : 4 ≤ k) (h₂ : k ≤ 8) {words : List PyStr}
    (hwords : ∀ w ∈ words, w ∈ englishWordlist) (hlen : words.length + 1 = 3 * k) :
    englishWordlist.countP (fun w =>
      (Mnemonic.fromPhrase P (PyStr.joinSpace (words ++ [w]))).isOk) = 2 ^ (11 - k) := by
  obtain ⟨indices, hlook⟩ : ∃ indices, lookupAll words = .ok indices := by
    refine Effect.exists_mapM_eq_ok_iff.mpr ?_
    intro w hw
    obtain ⟨i, hi⟩ := List.mem_iff_getElem?.mp (hwords w hw)
    exact ⟨i, by rw [wordToIndex_eq_some_iff.mpr hi]⟩
  obtain ⟨hlt, rfl⟩ := lookupAll_eq_ok_iff.mp hlook
  rw [List.length_map] at hlen
  calc englishWordlist.countP (fun w =>
        (Mnemonic.fromPhrase P (PyStr.joinSpace (indices.map wordAt ++ [w]))).isOk)
      = (List.range (2 ^ (11 - k) * 2 ^ k)).countP
          (fun j => j % 2 ^ k = completion P k indices (j / 2 ^ k)) := by
        -- counting words is counting indices, which are pairs of high and low bits
        rw [← map_wordAt_range, List.countP_map, ← pow_add, Nat.sub_add_cancel (by omega)]
        refine List.countP_congr fun j hj => ?_
        have h := fromPhrase_lastWord_iff (P := P) h₁ h₂ hlt hlen (List.mem_range.mp hj)
        rw [List.map_append, List.map_singleton] at h
        exact h.trans decide_eq_true_iff.symm
    _ = 2 ^ (11 - k) := Radix.countP_mod_eq (by positivity) _
        fun a _ => completion_lt (by omega) a

end LastWord

/-- Eleven times the first word. -/
theorem countP_lastWord_abandon : englishWordlist.countP (fun w =>
    (Mnemonic.fromPhrase Primitives.toy (PyStr.joinSpace
      (List.replicate 11 (PyStr.ofString "abandon") ++ [w]))).isOk) = 2 ^ 7 := by
  refine countP_lastWord Primitives.toy le_rfl (by decide) ?_ rfl
  intro w hw
  rw [List.eq_of_mem_replicate hw]
  exact List.mem_map.mpr ⟨"abandon", List.mem_cons_self, rfl⟩

end KeystoneCrypto
