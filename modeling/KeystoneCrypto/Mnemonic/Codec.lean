import KeystoneCrypto.Mnemonic

/-!
# The word codec

An entropy of `4 * k` bytes with its checksum of `k` bits is a string of `33 * k` bits, which is
cut into `3 * k` words of eleven bits. Read through `Radix`, both groupings are positional notation
of one bit string, so encoding and decoding are inverse to each other wherever the checksum fits.

`allBits` is the bit string of an entropy and `wordsOf` its words; `fromEntropy_eq`,
`fromPhrase_eq_ok_iff` and `entropy_eq` say what the three functions of the source do in these
terms. The main result, `fromPhrase_image`, is that the accepted strings are those whose words
spell an entropy, that they spell one entropy only, and that `entropy` returns it.

The two facts behind it are about bit strings alone. A list of indices is that of an entropy if and
only if its bits are `allBits` (`indicesOf_eq_iff`), since cutting into blocks of eleven and
flattening undo each other. And a string of `33 * k` bits passes the test of the checksum if and
only if it is `allBits` of some entropy (`checksum_eq_drop_iff`). What is left of the functions is
that their indexing, `int(.., 2)` and `to_bytes` never raise on such strings.
-/

namespace KeystoneCrypto

/-- The sizes of an entropy in bytes. -/
def entropySizes : List ℕ := [16, 20, 24, 28, 32]

theorem mem_entropySizes_iff {n : ℕ} : n ∈ entropySizes ↔ ∃ k, 4 ≤ k ∧ k ≤ 8 ∧ n = 4 * k := by
  simp only [entropySizes, List.mem_cons, List.not_mem_nil, or_false]
  refine ⟨?_, ?_⟩
  · rintro (rfl | rfl | rfl | rfl | rfl)
    exacts [⟨4, by decide⟩, ⟨5, by decide⟩, ⟨6, by decide⟩, ⟨7, by decide⟩, ⟨8, by decide⟩]
  · rintro ⟨k, h₁, h₂, rfl⟩
    omega

theorem mem_wordCounts_iff {n : ℕ} :
    n ∈ [12, 15, 18, 21, 24] ↔ ∃ k, 4 ≤ k ∧ k ≤ 8 ∧ n = 3 * k := by
  simp only [List.mem_cons, List.not_mem_nil, or_false]
  refine ⟨?_, ?_⟩
  · rintro (rfl | rfl | rfl | rfl | rfl)
    exacts [⟨4, by decide⟩, ⟨5, by decide⟩, ⟨6, by decide⟩, ⟨7, by decide⟩, ⟨8, by decide⟩]
  · rintro ⟨k, h₁, h₂, rfl⟩
    omega

/-! ### Bit strings -/

/-- The bits of an entropy. -/
def entropyBits (ent : Bytes) : List Bool :=
  Radix.digits bitDigit (ent.length * 8) (intFromBytes ent)

/-- The bits of an entropy and of its checksum. -/
def allBits (P : Primitives) (ent : Bytes) (k : ℕ) : List Bool :=
  entropyBits ent ++ checksum P ent k

/-- The bytes of an entropy of `4 * k` bytes, from its bits. -/
def bytesOfBits (k : ℕ) (bits : List Bool) : Bytes :=
  Radix.digits byteDigit (4 * k) (Radix.value bitDigit bits)

theorem pow_bytes_eq (n : ℕ) : 256 ^ n = 2 ^ (n * 8) := by
  rw [Nat.mul_comm, pow_mul]
  rfl

theorem intFromBytes_lt (b : Bytes) : intFromBytes b < 2 ^ (b.length * 8) := by
  rw [← pow_bytes_eq]
  exact Radix.value_lt byteDigit b

theorem zfill_bin_intFromBytes {ent : Bytes} (h : ent ≠ []) :
    zfill (ent.length * 8) (bin (intFromBytes ent)) = entropyBits ent :=
  zfill_bin (Nat.mul_pos (List.length_pos_iff.mpr h) (by decide)) (intFromBytes_lt ent)

@[simp] theorem length_entropyBits (ent : Bytes) : (entropyBits ent).length = ent.length * 8 :=
  Radix.length_digits _ _ _

theorem length_entropyBits_of_length {k : ℕ} {ent : Bytes} (h : ent.length = 4 * k) :
    (entropyBits ent).length = 32 * k := by
  rw [length_entropyBits, h]
  ring

theorem length_checksum (P : Primitives) (ent : Bytes) {k : ℕ} (h : k ≤ 256) :
    (checksum P ent k).length = k := by
  have hlen := P.sha256_length ent
  -- a digest has 256 bits, of which the first `k` are taken
  have hlt := intFromBytes_lt (P.sha256 ent)
  rw [hlen] at hlt
  unfold checksum
  rw [zfill_bin (by decide) hlt, List.length_take, Radix.length_digits, min_eq_left h]

theorem wordBits_eq {i : ℕ} (h : i < 2048) : wordBits i = Radix.digits bitDigit 11 i :=
  zfill_bin (by decide) h

/-- Bits and bytes of an entropy determine each other. -/
theorem bytesOfBits_entropyBits {k : ℕ} {ent : Bytes} (h : ent.length = 4 * k) :
    bytesOfBits k (entropyBits ent) = ent := by
  unfold bytesOfBits entropyBits
  rw [Radix.value_digits_of_lt bitDigit (intFromBytes_lt ent), ← h]
  exact Radix.digits_value byteDigit ent

theorem entropyBits_bytesOfBits {k : ℕ} {bits : List Bool} (h : bits.length = 32 * k) :
    entropyBits (bytesOfBits k bits) = bits := by
  -- the number that the bits spell fits into the bytes, so nothing is lost
  have hlt : Radix.value bitDigit bits < 256 ^ (4 * k) := by
    have hv := Radix.value_lt bitDigit bits
    rwa [pow_bytes_eq, show 4 * k * 8 = bits.length by rw [h]; ring]
  unfold entropyBits bytesOfBits intFromBytes
  rw [Radix.value_digits_of_lt byteDigit hlt, Radix.length_digits,
    show 4 * k * 8 = bits.length by rw [h]; ring]
  exact Radix.digits_value bitDigit bits

/-! ### Words -/

/-- The word at an index. -/
def wordAt (i : ℕ) : PyStr := englishWordlist.getD i []

/-- The word indices of an entropy of `4 * k` bytes. -/
def indicesOf (P : Primitives) (k : ℕ) (ent : Bytes) : List ℕ :=
  (List.range (3 * k)).map fun i => Radix.value bitDigit (Radix.slice 11 (allBits P ent k) i)

/-- The words of an entropy of `4 * k` bytes. -/
def wordsOf (P : Primitives) (k : ℕ) (ent : Bytes) : List PyStr :=
  (indicesOf P k ent).map wordAt

theorem wordAt_eq {i : ℕ} (h : i < 2048) : englishWordlist[i]? = some (wordAt i) := by
  rw [← length_englishWordlist] at h
  unfold wordAt
  rw [getD_of_lt h, List.getElem?_eq_getElem h]

theorem wordAt_mem {i : ℕ} (h : i < 2048) : wordAt i ∈ englishWordlist :=
  List.mem_of_getElem? (wordAt_eq h)

theorem wordToIndex_wordAt {i : ℕ} (h : i < 2048) : wordToIndex (wordAt i) = some i :=
  wordToIndex_eq_some_iff.mpr (wordAt_eq h)

theorem wordAt_of_wordToIndex {w : PyStr} {i : ℕ} (h : wordToIndex w = some i) :
    wordAt i = w := by
  have hw := wordToIndex_eq_some_iff.mp h
  rw [wordAt_eq (wordToIndex_lt h)] at hw
  exact Option.some.inj hw

/-- Looking up words finds exactly the index lists that spell them. -/
theorem lookupAll_eq_ok_iff {words : List PyStr} {indices : List ℕ} :
    lookupAll words = .ok indices ↔
      (∀ i ∈ indices, i < 2048) ∧ words = indices.map wordAt := by
  -- the first unknown word ends the loop, so the words are taken from the front
  unfold lookupAll
  induction words generalizing indices with
  | nil => cases indices <;> simp [pure, Except.pure]
  | cons w words ih =>
    rw [List.mapM_cons]
    cases h : wordToIndex w with
    | none =>
      -- no index spells an unknown word
      refine ⟨?_, ?_⟩
      · intro h'
        cases h'
      · rintro ⟨hlt, heq⟩
        cases indices with
        | nil => cases heq
        | cons i indices =>
          have hw : w = wordAt i := (List.cons.inj heq).1
          rw [hw, wordToIndex_wordAt (hlt i List.mem_cons_self)] at h
          cases h
    | some i =>
      -- the word is known, and by one index only
      simp only [Effect.ok_bind, Effect.bind_eq_ok_iff, pure, Except.pure, Except.ok.injEq, ih]
      refine ⟨?_, ?_⟩
      · rintro ⟨is, ⟨hlt, rfl⟩, rfl⟩
        refine ⟨?_, by rw [List.map_cons, wordAt_of_wordToIndex h]⟩
        intro j hj
        rcases List.mem_cons.mp hj with rfl | hj
        · exact wordToIndex_lt h
        · exact hlt j hj
      · rintro ⟨hlt, heq⟩
        cases indices with
        | nil => cases heq
        | cons j indices =>
          obtain ⟨hw, hws⟩ := List.cons.inj heq
          have hj := wordToIndex_wordAt (hlt j List.mem_cons_self)
          rw [← hw, h] at hj
          exact ⟨indices, ⟨fun j' hj' => hlt j' (List.mem_cons_of_mem j hj'), hws⟩,
            by rw [Option.some.inj hj]⟩

section Codec

variable {P : Primitives} {k : ℕ} {ent : Bytes}

theorem length_allBits (hk : k ≤ 256) (h : ent.length = 4 * k) :
    (allBits P ent k).length = 11 * (3 * k) := by
  unfold allBits
  rw [List.length_append, length_entropyBits, length_checksum P ent hk, h]
  ring

theorem indicesOf_lt (i : ℕ) (hi : i ∈ indicesOf P k ent) : i < 2048 := by
  obtain ⟨j, -, rfl⟩ := List.mem_map.mp hi
  refine lt_of_lt_of_le (Radix.value_lt bitDigit _) ?_
  have hlen : (Radix.slice 11 (allBits P ent k) j).length ≤ 11 := List.length_take_le _ _
  exact Nat.pow_le_pow_right (by decide) hlen

@[simp] theorem length_wordsOf : (wordsOf P k ent).length = 3 * k := by
  simp [wordsOf, indicesOf]

/-- **Regrouping.** A list of indices is that of an entropy exactly if its bits are those of the
entropy and its checksum. -/
theorem indicesOf_eq_iff (hk : k ≤ 256) (h : ent.length = 4 * k) {indices : List ℕ}
    (hlt : ∀ i ∈ indices, i < 2048) (hlen : indices.length = 3 * k) :
    indicesOf P k ent = indices ↔ indices.flatMap wordBits = allBits P ent k := by
  -- the bits are blocks of eleven, one for each index
  have hblocks : indices.flatMap wordBits
      = (indices.map (Radix.digits bitDigit 11)).flatten := by
    rw [List.flatMap_def]
    exact congrArg _ (List.map_congr_left fun i hi => wordBits_eq (hlt i hi))
  have hall := length_allBits (P := P) hk h
  rw [hblocks]
  refine ⟨?_, ?_⟩
  · rintro rfl
    have hslices : (indicesOf P k ent).map (Radix.digits bitDigit 11)
        = (List.range (3 * k)).map (Radix.slice 11 (allBits P ent k)) := by
      unfold indicesOf
      rw [List.map_map]
      refine List.map_congr_left ?_
      intro i hi
      -- no slice is cut short at the end
      have hfull : (Radix.slice 11 (allBits P ent k) i).length = 11 := by
        have hlt := List.mem_range.mp hi
        rw [Radix.slice, List.length_take, List.length_drop, hall]
        omega
      have hdigits := Radix.digits_value bitDigit (Radix.slice 11 (allBits P ent k) i)
      rwa [hfull] at hdigits
    rw [hslices, Radix.flatten_slices _ hall]
  · intro hbits
    -- cutting the blocks apart again gives the blocks, and their values are the indices
    have hblock : ∀ x ∈ indices.map (Radix.digits bitDigit 11), x.length = 11 := by
      intro x hx
      obtain ⟨i, -, rfl⟩ := List.mem_map.mp hx
      exact Radix.length_digits _ _ _
    have hcut := Radix.slices_flatten _ hblock
    rw [hbits, List.length_map, hlen] at hcut
    have hvalues : indicesOf P k ent
        = ((List.range (3 * k)).map (Radix.slice 11 (allBits P ent k))).map
          (Radix.value bitDigit) := by
      unfold indicesOf
      rw [List.map_map]
      rfl
    rw [hvalues, hcut, List.map_map]
    refine (List.map_congr_left fun i hi => ?_).trans (List.map_id indices)
    exact Radix.value_digits_of_lt bitDigit (hlt i hi)

/-- The words of an entropy are looked up successfully. -/
theorem lookupAll_wordsOf : lookupAll (wordsOf P k ent) = .ok (indicesOf P k ent) :=
  lookupAll_eq_ok_iff.mpr ⟨indicesOf_lt, rfl⟩

/-- Words are fields, so joining them by spaces and splitting gives them back. -/
theorem split_joinSpace {words : List PyStr} (h : ∀ w ∈ words, w ∈ englishWordlist) :
    (PyStr.joinSpace words).split = words := by
  refine Text.fields_join rfl _ ?_
  intro w hw
  obtain ⟨hne, hletters⟩ := englishWordlist_letters (h w hw)
  refine ⟨hne, ?_⟩
  intro c hc
  obtain ⟨h₁, h₂⟩ := hletters c hc
  unfold CodePoint.isSpace
  -- no blank of the interpreter lies between `a` and `z`
  simp only [Bool.or_eq_false_iff, Bool.and_eq_false_iff, decide_eq_false_iff_not, not_le,
    beq_eq_false_iff_ne]
  omega

theorem split_joinSpace_wordsOf :
    (PyStr.joinSpace (wordsOf P k ent)).split = wordsOf P k ent := by
  refine split_joinSpace ?_
  intro w hw
  obtain ⟨i, hi, rfl⟩ := List.mem_map.mp hw
  exact wordAt_mem (indicesOf_lt i hi)

/-! ### The three functions of the source -/

/-- Eleven bits, or fewer at the end, are an index below 2048. -/
theorem value_slice_lt (bits : List Bool) (i : ℕ) :
    Radix.value bitDigit (sliceFromTo bits i (i + 11)) < 2048 := by
  refine lt_of_lt_of_le (Radix.value_lt bitDigit _) ?_
  have hle : (sliceFromTo bits i (i + 11)).length ≤ 11 := by
    rw [length_sliceFromTo]
    omega
  exact Nat.pow_le_pow_right (by decide) hle

/-- One turn of the loop of `from_entropy`. -/
theorem word_of_slice {bits : List Bool} {i : ℕ} (h : i < bits.length) : (do
    let n ← intBase2 (sliceFromTo bits i (i + 11))
    indexAt englishWordlist n)
      = .ok (wordAt (Radix.value bitDigit (sliceFromTo bits i (i + 11)))) := by
  have hlen := length_sliceFromTo bits i (i + 11)
  rw [Nat.add_sub_cancel_left] at hlen
  have hne : sliceFromTo bits i (i + 11) ≠ [] := List.ne_nil_of_length_pos (by omega)
  rw [intBase2_of_ne_nil hne, Effect.ok_bind]
  unfold indexAt
  rw [wordAt_eq (value_slice_lt bits i)]

/-- **Encoding.** `from_entropy` joins the words of the entropy. -/
theorem fromEntropy_eq {e : SecretBytes} (hk : k ≤ 256) (h : e.buf.length = 4 * k) :
    Mnemonic.fromEntropy P e = .ok ⟨PyStr.joinSpace (wordsOf P k e.buf)⟩ := by
  -- the number of checksum bits is computed from the length
  have hcs : e.buf.length * 8 / 32 = k := by omega
  have hall := length_allBits (P := P) hk h
  have hword : ∀ i ∈ List.range (3 * k), (do
      let n ← intBase2 (sliceFromTo (allBits P e.buf k) (11 * i) (11 * i + 11))
      indexAt englishWordlist n)
      = .ok (wordAt (Radix.value bitDigit (Radix.slice 11 (allBits P e.buf k) i))) := by
    intro i hi
    have hslice : sliceFromTo (allBits P e.buf k) (11 * i) (11 * i + 11)
        = Radix.slice 11 (allBits P e.buf k) i := by
      unfold sliceFromTo Radix.slice
      rw [Nat.add_sub_cancel_left]
    rw [← hslice]
    refine word_of_slice ?_
    have hlt := List.mem_range.mp hi
    omega
  -- the loop counts in steps of eleven, the slices are numbered
  have hsteps : rangeStep (11 * (3 * k)) 11 = (List.range (3 * k)).map (11 * ·) := by
    unfold rangeStep
    rw [show (11 * (3 * k) + (11 - 1)) / 11 = 3 * k by omega]
  unfold Mnemonic.fromEntropy
  simp only [zfill_bin_intFromBytes e.nonempty, hcs]
  rw [show entropyBits e.buf ++ checksum P e.buf k = allBits P e.buf k from rfl, hall, hsteps,
    List.mapM_map, Function.comp_def, Effect.mapM_eq_ok_map hword]
  unfold wordsOf indicesOf
  rw [List.map_map]
  rfl

theorem length_flatMap_wordBits {indices : List ℕ} (h : ∀ i ∈ indices, i < 2048) :
    (indices.flatMap wordBits).length = 11 * indices.length := by
  induction indices with
  | nil => rfl
  | cons i is ih =>
    rw [List.flatMap_cons, List.length_append, wordBits_eq (h i List.mem_cons_self),
      Radix.length_digits, ih fun j hj => h j (List.mem_cons_of_mem i hj), List.length_cons]
    ring

section Decode

variable {bits : List Bool}

theorem length_take_entropy (h : bits.length = 33 * k) :
    (bits.take (32 * k)).length = 32 * k := by
  rw [List.length_take, h]
  omega

/-- The statements `from_phrase` and `entropy` share: cut off the checksum and repack. -/
theorem decode_bits (hk : 0 < k) (h : bits.length = 33 * k) :
    sliceTakeEnd bits k = bits.drop (32 * k) ∧ (do
      let n ← intBase2 (sliceDropEnd bits k)
      intToBytes n ((sliceDropEnd bits k).length / 8))
        = .ok (bytesOfBits k (bits.take (32 * k))) := by
  -- for `k` above zero a negative index counts from the end
  have hdrop : sliceDropEnd bits k = bits.take (32 * k) := by
    unfold sliceDropEnd
    rw [if_neg hk.ne', h, show 33 * k - k = 32 * k by omega]
  have htake : sliceTakeEnd bits k = bits.drop (32 * k) := by
    unfold sliceTakeEnd
    rw [if_neg hk.ne', h, show 33 * k - k = 32 * k by omega]
  have hlen := length_take_entropy h
  have hne : bits.take (32 * k) ≠ [] := by
    apply List.ne_nil_of_length_pos
    omega
  -- the number the bits spell fits the bytes, so `to_bytes` does not overflow
  have hlt : Radix.value bitDigit (bits.take (32 * k)) < 256 ^ (4 * k) := by
    have hv := Radix.value_lt bitDigit (bits.take (32 * k))
    have hpow : 2 ^ (32 * k) = 256 ^ (4 * k) := by
      rw [pow_bytes_eq]
      congr 1
      ring
    rwa [hlen, hpow] at hv
  refine ⟨htake, ?_⟩
  rw [hdrop, intBase2_of_ne_nil hne, Effect.ok_bind, hlen, show 32 * k / 8 = 4 * k by omega,
    intToBytes_of_lt hlt]
  rfl

/-- **The checksum test.** It holds exactly for the bits of some entropy with its checksum. -/
theorem checksum_eq_drop_iff (h : bits.length = 33 * k) :
    checksum P (bytesOfBits k (bits.take (32 * k))) k = bits.drop (32 * k) ↔
      ∃ ent : Bytes, ent.length = 4 * k ∧ bits = allBits P ent k := by
  refine ⟨?_, ?_⟩
  -- the entropy is the one that the first bits spell
  · intro hcs
    refine ⟨bytesOfBits k (bits.take (32 * k)), Radix.length_digits _ _ _, ?_⟩
    unfold allBits
    rw [entropyBits_bytesOfBits (length_take_entropy h), hcs, List.take_append_drop]
  · rintro ⟨ent, hent, rfl⟩
    have hbits := length_entropyBits_of_length hent
    unfold allBits
    rw [List.take_left' hbits, List.drop_left' hbits, bytesOfBits_entropyBits hent]

theorem bytesOfBits_take_allBits (h : ent.length = 4 * k) :
    bytesOfBits k ((allBits P ent k).take (32 * k)) = ent := by
  unfold allBits
  rw [List.take_left' (length_entropyBits_of_length h), bytesOfBits_entropyBits h]

end Decode

/-- `from_phrase` on a phrase of known words is the checksum test. -/
theorem fromPhrase_of_lookupAll {p : PyStr} {indices : List ℕ} (h₁ : 4 ≤ k) (h₂ : k ≤ 8)
    (hlen : (P.nfkd p).split.length = 3 * k)
    (hlook : lookupAll (P.nfkd p).split = .ok indices) :
    Mnemonic.fromPhrase P p = (do
      raiseIf (checksum P (bytesOfBits k ((indices.flatMap wordBits).take (32 * k))) k
        ≠ (indices.flatMap wordBits).drop (32 * k)) .invalidMnemonicError [.lit "invalid checksum"]
      return ⟨P.nfkd p⟩) := by
  obtain ⟨hlt, hwords⟩ := lookupAll_eq_ok_iff.mp hlook
  have hcount : indices.length = 3 * k := by
    rw [← hlen, hwords, List.length_map]
  have hbits : (indices.flatMap wordBits).length = 33 * k := by
    rw [length_flatMap_wordBits hlt, hcount]
    ring
  -- all that is left is the comparison, as nothing before it can raise
  obtain ⟨htake, hdecode⟩ := decode_bits (k := k) (by omega) hbits
  have hcs : (P.nfkd p).split.length * 11 / 33 = k := by omega
  unfold Mnemonic.fromPhrase
  simp only [hlook, hcs]
  rw [raiseIf_neg (not_not.mpr (mem_wordCounts_iff.mpr ⟨k, h₁, h₂, hlen⟩)), Effect.ok_bind,
    pure_bind, ← bind_assoc, hdecode, Effect.ok_bind]
  simp only [htake]

/-- **Decoding.** `from_phrase` returns the normalised string, and does so exactly when its words
are those of an entropy. -/
theorem fromPhrase_eq_ok_iff {p : PyStr} {m : Mnemonic} :
    Mnemonic.fromPhrase P p = .ok m ↔ m = ⟨P.nfkd p⟩ ∧ ∃ k ent, 4 ≤ k ∧ k ≤ 8 ∧
      ent.length = 4 * k ∧ (P.nfkd p).split = wordsOf P k ent := by
  refine ⟨?_, ?_⟩
  · intro hrun
    -- the count of the words has passed its test
    obtain ⟨k, h₁, h₂, hlen⟩ : ∃ k, 4 ≤ k ∧ k ≤ 8 ∧ (P.nfkd p).split.length = 3 * k := by
      rw [← mem_wordCounts_iff]
      unfold Mnemonic.fromPhrase at hrun
      obtain ⟨_, hcount, -⟩ := Effect.bind_eq_ok_iff.mp hrun
      exact not_not.mp (raiseIf_eq_ok_iff.mp hcount)
    cases hlook : lookupAll (P.nfkd p).split with
    | error w =>
      -- an unknown word is refused
      unfold Mnemonic.fromPhrase at hrun
      simp only [hlook] at hrun
      obtain ⟨_, -, hrun⟩ := Effect.bind_eq_ok_iff.mp hrun
      cases hrun
    | ok indices =>
      obtain ⟨hlt, hwords⟩ := lookupAll_eq_ok_iff.mp hlook
      have hcount : indices.length = 3 * k := by rw [← hlen, hwords, List.length_map]
      rw [fromPhrase_of_lookupAll h₁ h₂ hlen hlook] at hrun
      obtain ⟨_, hcs, hm⟩ := Effect.bind_eq_ok_iff.mp hrun
      have hcs := not_not.mp (raiseIf_eq_ok_iff.mp hcs)
      have hbits : (indices.flatMap wordBits).length = 33 * k := by
        rw [length_flatMap_wordBits hlt, hcount]
        ring
      -- the checksum passed, so the bits are those of an entropy, and the indices with them
      obtain ⟨ent, hent, hall⟩ := (checksum_eq_drop_iff hbits).mp hcs
      refine ⟨(Except.ok.inj hm).symm, k, ent, h₁, h₂, hent, ?_⟩
      have hk : k ≤ 256 := by omega
      rw [hwords, ← (indicesOf_eq_iff hk hent hlt hcount).mpr hall]
      rfl
  · rintro ⟨rfl, k, ent, h₁, h₂, hent, hwords⟩
    have hk : k ≤ 256 := by omega
    have hall := (indicesOf_eq_iff (P := P) hk hent indicesOf_lt (by simp [indicesOf])).mp rfl
    have hbits : ((indicesOf P k ent).flatMap wordBits).length = 33 * k := by
      rw [hall, length_allBits hk hent]
      ring
    have hcs := (checksum_eq_drop_iff (P := P) hbits).mpr ⟨ent, hent, hall⟩
    rw [fromPhrase_of_lookupAll h₁ h₂ (by rw [hwords, length_wordsOf])
      (by rw [hwords]; exact lookupAll_wordsOf), raiseIf_neg (not_not.mpr hcs)]
    rfl

/-- What the property `entropy` does with the indices of the words. -/
theorem entropy_of_lookupAll (m : Mnemonic) {indices : List ℕ}
    (hlook : lookupAll m.phrase.split = .ok indices) (hcs : m.phrase.split.length * 11 / 33 = k) :
    m.entropy = (do
      let n ← intBase2 (sliceDropEnd (indices.flatMap wordBits) k)
      let entBytes ← intToBytes n ((sliceDropEnd (indices.flatMap wordBits) k).length / 8)
      SecretBytes.new entBytes) := by
  unfold Mnemonic.entropy
  simp only [hlook, hcs]
  rw [pure_bind]

/-- **Reading the entropy back.** -/
theorem entropy_eq {m : Mnemonic} {e : SecretBytes} (hk : k ≤ 256) (h : e.buf.length = 4 * k)
    (hwords : m.phrase.split = wordsOf P k e.buf) : m.entropy = .ok e := by
  -- an entropy is not empty, so there are bits of a checksum
  have hpos : 0 < e.buf.length := List.length_pos_iff.mpr e.nonempty
  have hall := (indicesOf_eq_iff (P := P) hk h indicesOf_lt (by simp [indicesOf])).mp rfl
  have hbits : (allBits P e.buf k).length = 33 * k := by
    rw [length_allBits hk h]
    ring
  obtain ⟨-, hdecode⟩ := decode_bits (by omega) hbits
  have hcs : m.phrase.split.length * 11 / 33 = k := by
    rw [hwords, length_wordsOf]
    omega
  have hlook : lookupAll m.phrase.split = .ok (indicesOf P k e.buf) := by
    rw [hwords, lookupAll_wordsOf]
  rw [entropy_of_lookupAll m hlook hcs, hall, ← bind_assoc, hdecode, Effect.ok_bind,
    bytesOfBits_take_allBits h, SecretBytes.new_buf]

/-- Whatever `from_phrase` refuses, it refuses with `InvalidMnemonicError`. -/
theorem type_of_fromPhrase_eq_error {p : PyStr} {x : PyExc}
    (h : Mnemonic.fromPhrase P p = .error x) : x.type = .invalidMnemonicError := by
  -- three tests: the count, the words, the checksum
  by_cases hcount : (P.nfkd p).split.length ∈ [12, 15, 18, 21, 24]
  · obtain ⟨k, h₁, h₂, hlen⟩ := mem_wordCounts_iff.mp hcount
    cases hlook : lookupAll (P.nfkd p).split with
    | error w =>
      unfold Mnemonic.fromPhrase at h
      simp only [hlook] at h
      rw [raiseIf_neg (not_not.mpr hcount)] at h
      cases h
      rfl
    | ok indices =>
      rw [fromPhrase_of_lookupAll h₁ h₂ hlen hlook] at h
      rcases Effect.bind_eq_error_iff.mp h with hcs | ⟨_, -, hret⟩
      · rw [(raiseIf_eq_error_iff.mp hcs).2]
      · cases hret
  · unfold Mnemonic.fromPhrase at h
    simp only at h
    rw [raiseIf_pos hcount] at h
    cases h
    rfl

end Codec

/-! ### The accepted strings -/

/-- The words of `p` are those of `from_entropy(e)`, for an entropy of an admitted size. -/
def Spells (P : Primitives) (p : PyStr) (e : SecretBytes) : Prop :=
  e.buf.length ∈ entropySizes ∧
    ∃ m, Mnemonic.fromEntropy P e = .ok m ∧ (P.nfkd p).split = m.phrase.split

theorem spells_iff {P : Primitives} {p : PyStr} {e : SecretBytes} :
    Spells P p e ↔ ∃ k, 4 ≤ k ∧ k ≤ 8 ∧ e.buf.length = 4 * k ∧
      (P.nfkd p).split = wordsOf P k e.buf := by
  unfold Spells
  rw [mem_entropySizes_iff]
  refine ⟨?_, ?_⟩
  · rintro ⟨⟨k, h₁, h₂, hlen⟩, m, hm, hsplit⟩
    rw [fromEntropy_eq (by omega) hlen, Except.ok.injEq] at hm
    rw [← hm, split_joinSpace_wordsOf] at hsplit
    exact ⟨k, h₁, h₂, hlen, hsplit⟩
  · rintro ⟨k, h₁, h₂, hlen, hsplit⟩
    refine ⟨⟨k, h₁, h₂, hlen⟩, _, fromEntropy_eq (by omega) hlen, ?_⟩
    rw [split_joinSpace_wordsOf, hsplit]

/-- An accepted string spells the entropy that `entropy` returns. -/
theorem Spells.entropy_eq {P : Primitives} {p : PyStr} {e : SecretBytes} (h : Spells P p e) :
    (⟨P.nfkd p⟩ : Mnemonic).entropy = .ok e := by
  obtain ⟨k, -, h₂, hlen, hsplit⟩ := spells_iff.mp h
  exact KeystoneCrypto.entropy_eq (by omega) hlen hsplit

/-- `from_phrase` accepts the strings that spell an entropy. -/
theorem fromPhrase_eq_ok_iff_spells {P : Primitives} {p : PyStr} {m : Mnemonic} :
    Mnemonic.fromPhrase P p = .ok m ↔ m = ⟨P.nfkd p⟩ ∧ ∃ e, Spells P p e := by
  rw [fromPhrase_eq_ok_iff]
  refine and_congr_right fun _ => ?_
  refine ⟨?_, ?_⟩
  · rintro ⟨k, ent, h₁, h₂, hlen, hsplit⟩
    have hne : ent ≠ [] := List.ne_nil_of_length_pos (by omega)
    exact ⟨⟨ent, hne⟩, spells_iff.mpr ⟨k, h₁, h₂, hlen, hsplit⟩⟩
  · rintro ⟨e, he⟩
    obtain ⟨k, h₁, h₂, hlen, hsplit⟩ := spells_iff.mp he
    exact ⟨k, e.buf, h₁, h₂, hlen, hsplit⟩

/-- **Decoding accepts the image of encoding.** A string is accepted exactly if its words are those
of `from_entropy(e)` for some entropy of an admitted size; there is one such entropy, and it is
what the property `entropy` of the result returns; everything else raises
`InvalidMnemonicError`. -/
theorem fromPhrase_image (P : Primitives) (p : PyStr) :
    ((∃ m, Mnemonic.fromPhrase P p = .ok m) ↔ ∃ e, Spells P p e) ∧
    (∀ e e', Spells P p e → Spells P p e' → e = e') ∧
    (∀ m e, Mnemonic.fromPhrase P p = .ok m → Spells P p e → m.entropy = .ok e) ∧
    (∀ x, Mnemonic.fromPhrase P p = .error x → x.type = .invalidMnemonicError) := by
  refine ⟨?_, ?_, ?_, fun x => type_of_fromPhrase_eq_error⟩
  · simp only [fromPhrase_eq_ok_iff_spells, exists_eq_left]
  · intro e e' he he'
    -- both are what `entropy` returns
    exact Except.ok.inj (he.entropy_eq.symm.trans he'.entropy_eq)
  · intro m e hm he
    rw [(fromPhrase_eq_ok_iff_spells.mp hm).1]
    exact he.entropy_eq

end KeystoneCrypto
