import KeystoneCrypto.Signing
import KeystoneCrypto.Lib.Numeral

/-!
# Signatures and their DER form

coincurve speaks DER, the library stores `r || s`. `_rs_to_der(r, s)` is the strict DER encoding of
the numbers that the two halves spell (`rsToDer_eq`), and `_der_to_rs` reads the halves back from
it (`derToRs_signature`). There is one strict encoding of each pair of numbers, so the two
conversions are inverse to each other on strict encodings, whatever the lengths of the two
INTEGERs (`rsToDer_derToRs`).
-/

namespace KeystoneCrypto

/-! ### From halves to DER -/

theorem hi_bit_iff (b : UInt8) : b &&& 0x80 ≠ 0 ↔ 128 ≤ b.toNat := by
  have h : ∀ i : Fin 256, UInt8.ofFin i &&& 0x80 ≠ 0 ↔ 128 ≤ (UInt8.ofFin i).toNat := by
    decide +kernel
  exact h b.toFin

theorem intFromBytes_cons (b : UInt8) (l : Bytes) :
    intFromBytes (b :: l) = b.toNat * 256 ^ l.length + intFromBytes l := by
  have happ := Radix.value_append byteDigit [b] l
  rw [Radix.value_singleton] at happ
  exact happ

/-- The loop keeps the value and stops at a nonzero byte or at the last one. -/
theorem stripZeros_spec {x : Bytes} (h : x ≠ []) :
    ∃ b l, stripZeros x = b :: l ∧ (l = [] ∨ b ≠ 0) ∧ intFromBytes (b :: l) = intFromBytes x ∧
      (b :: l).length ≤ x.length := by
  induction x with
  | nil => exact absurd rfl h
  | cons b x ih =>
    cases x with
    | nil => exact ⟨b, [], rfl, .inl rfl, rfl, le_rfl⟩
    | cons c x =>
      by_cases hb : b = 0
      · -- a leading zero byte goes, and with it nothing of the value
        obtain ⟨b', l, hstrip, hstop, hvalue, hlen⟩ := ih (List.cons_ne_nil c x)
        refine ⟨b', l, ?_, hstop, ?_, ?_⟩
        · rw [stripZeros, if_pos hb, hstrip]
        · rw [hvalue, intFromBytes_cons b, hb]
          exact (Nat.zero_add _).symm.trans (by simp)
        · exact le_trans hlen (Nat.le_succ _)
      · exact ⟨b, c :: x, by rw [stripZeros, if_neg hb], .inr hb, rfl, le_rfl⟩

theorem intFromBytes_zero_cons (l : Bytes) : intFromBytes (0 :: l) = intFromBytes l := by
  rw [intFromBytes_cons]
  exact (congrArg (· + intFromBytes l) (Nat.zero_mul _)).trans (Nat.zero_add _)

/-- **`encode_int` is the strict DER INTEGER.** -/
theorem encodeInt_eq {x : Bytes} (h : x ≠ []) (hlen : x.length ≤ 32) :
    encodeInt x = .ok (Der.integer byteDigit (intFromBytes x)) := by
  obtain ⟨b, l, hstrip, hstop, hvalue, hle⟩ := stripZeros_spec h
  rw [List.length_cons] at hle
  set signed : Bytes := if b &&& 0x80 ≠ 0 then 0x00 :: b :: l else b :: l with hsigned
  -- whether or not a sign byte is put in front, the string is the shortest form of the value
  have hbody : signed = Der.body byteDigit (intFromBytes x) ∧ signed.length ≤ 33 := by
    by_cases hsign : b &&& 0x80 ≠ 0
    · -- the sign byte adds nothing to the value
      have hval : Radix.value byteDigit (0x00 :: b :: l) = intFromBytes x :=
        (intFromBytes_zero_cons (b :: l)).trans hvalue
      rw [hsigned, if_pos hsign, ← hval]
      refine ⟨Der.eq_body byteDigit ?_, by simp only [List.length_cons]; omega⟩
      rw [hval, ← hvalue]
      exact Der.width_of_hi byteDigit ((hi_bit_iff b).mp hsign)
    · have hlt : b.toNat < 128 := Nat.lt_of_not_le fun h' => hsign ((hi_bit_iff b).mpr h')
      rw [hsigned, if_neg hsign, ← hvalue]
      refine ⟨Der.eq_body byteDigit ?_, by simp only [List.length_cons]; omega⟩
      exact Der.width_of_lo byteDigit hlt
        (hstop.imp_right fun hb hzero => hb (UInt8.toNat_inj.mp hzero))
  obtain ⟨hbody, hshort⟩ := hbody
  unfold encodeInt
  rw [hstrip]
  simp only [indexAt_of_lt (show 0 < (b :: l).length from Nat.succ_pos _), Effect.ok_bind,
    List.getElem_cons_zero]
  rw [← hsigned, bytesOfInt_natCast (by omega), hbody, Der.length_body]
  rfl

/-- **The conversion keeps the signature.** -/
theorem rsToDer_eq {r s : Bytes} (hr : r.length = 32) (hs : s.length = 32) :
    rsToDer r s = .ok (Der.signature byteDigit (intFromBytes r) (intFromBytes s)) := by
  have hwidth : ∀ x : Bytes, x.length = 32 →
      (Der.integer byteDigit (intFromBytes x)).length ≤ 35 := by
    intro x hx
    have hlt : intFromBytes x < 256 ^ 32 := hx ▸ Radix.value_lt byteDigit x
    rw [Der.length_integer]
    have := Der.width_le hlt
    omega
  have hne : ∀ x : Bytes, x.length = 32 → x ≠ [] := fun x hx =>
    List.ne_nil_of_length_pos (by omega)
  have hlenr := hwidth r hr
  have hlens := hwidth s hs
  -- two INTEGERs of 35 bytes at most make a body of 70, so one length byte is enough
  unfold rsToDer
  rw [raiseIf_neg (by omega), encodeInt_eq (hne r hr) hr.le, encodeInt_eq (hne s hs) hs.le]
  simp only [Effect.ok_bind]
  rw [bytesOfInt_natCast (by rw [List.length_append]; omega)]
  rfl

theorem length_of_rsToDer {r s der : Bytes} (h : rsToDer r s = .ok der) :
    r.length = 32 ∧ s.length = 32 := by
  unfold rsToDer at h
  obtain ⟨_, hlen, -⟩ := Effect.bind_eq_ok_iff.mp h
  have := raiseIf_eq_ok_iff.mp hlen
  omega

/-- What is written is the strict encoding of two numbers below `2 ^ 256`. -/
theorem isSignature_of_rsToDer {r s der : Bytes} (h : rsToDer r s = .ok der) :
    intFromBytes r < 2 ^ 256 ∧ intFromBytes s < 2 ^ 256 ∧
      Der.IsSignature byteDigit der (intFromBytes r) (intFromBytes s) := by
  obtain ⟨hr, hs⟩ := length_of_rsToDer h
  have hrlt : intFromBytes r < 256 ^ 32 := hr ▸ Radix.value_lt byteDigit r
  have hslt : intFromBytes s < 256 ^ 32 := hs ▸ Radix.value_lt byteDigit s
  have hwr := Der.width_le hrlt
  have hws := Der.width_le hslt
  rw [rsToDer_eq hr hs, Except.ok.injEq] at h
  rw [Der.pow_eq] at hrlt hslt
  exact ⟨hrlt, hslt, (Der.isSignature_iff byteDigit).mpr ⟨h.symm, by omega⟩⟩

/-! ### From DER to halves -/

/-- The statements of `derToRs` behind the first length, for the contents `l` of a first INTEGER of
length `k` and what follows. -/
def readIntegers (k : UInt8) (l : Bytes) : Except PyExc (Bytes × Bytes) := do
  let sTag ← indexAt l k.toNat
  raiseIf (sTag ≠ 0x02) .signatureError [.lit "bad DER: expected INTEGER for s"]
  let sLen ← indexAt l (k.toNat + 1)
  let r := dropSign (l.take k.toNat)
  let s := dropSign (sliceFromTo l (k.toNat + 2) (k.toNat + 2 + sLen.toNat))
  raiseIf (32 < r.length ∨ 32 < s.length) .signatureError
    [.lit "DER component too large for secp256k1"]
  return (rjust32 r, rjust32 s)

/-- Behind a right frame the offsets count from the first contents. -/
theorem derToRs_framed {len : UInt8} {l : Bytes} (h : len.toNat = l.length + 2) (k : UInt8) :
    derToRs (0x30 :: len :: 0x02 :: k :: l) = readIntegers k l := by
  set der : Bytes := 0x30 :: len :: 0x02 :: k :: l with hder
  -- the four bytes in front of the contents shift every index and every slice
  have hskip : ∀ i, indexAt der (4 + i) = indexAt l i := fun i =>
    indexAt_append_right [0x30, len, 0x02, k] l i
  have hslice : ∀ a b, sliceFromTo der (4 + a) (4 + b) = sliceFromTo l a b := by
    intro a b
    unfold sliceFromTo
    rw [Nat.add_sub_add_left, ← List.drop_drop]
    rfl
  have hlen : len.toNat + 2 = der.length := by
    rw [h, hder]
    rfl
  unfold derToRs readIntegers
  simp only [show indexAt der 0 = .ok 0x30 from rfl, show indexAt der 1 = .ok len from rfl,
    show indexAt der 2 = .ok 0x02 from rfl, show indexAt der 3 = .ok k from rfl, Effect.ok_bind]
  rw [raiseIf_neg (by simp), raiseIf_neg (not_not.mpr hlen), raiseIf_neg (by simp)]
  simp only [Effect.ok_bind, Nat.add_assoc, hskip]
  have hfirst := hslice 0 k.toNat
  simp only [sliceFromTo, List.drop_zero, Nat.sub_zero, Nat.add_zero] at hfirst
  simp only [hslice]
  rw [show sliceFromTo der 4 (4 + k.toNat) = l.take k.toNat from hfirst]

/-- Two INTEGERs as the reader cuts them out: the second one ends where its length says or where
the string does. -/
theorem readIntegers_append (r l : Bytes) {k : UInt8} (hk : k.toNat = r.length) (j : UInt8) :
    readIntegers k (r ++ 0x02 :: j :: l) = (do
      raiseIf (32 < (dropSign r).length ∨ 32 < (dropSign (l.take j.toNat)).length) .signatureError
        [.lit "DER component too large for secp256k1"]
      return (rjust32 (dropSign r), rjust32 (dropSign (l.take j.toNat)))) := by
  have htag : indexAt (r ++ 0x02 :: j :: l) r.length = .ok 0x02 :=
    indexAt_append_right r (0x02 :: j :: l) 0
  have hlen : indexAt (r ++ 0x02 :: j :: l) (r.length + 1) = .ok j :=
    indexAt_append_right r (0x02 :: j :: l) 1
  have hslice : sliceFromTo (r ++ 0x02 :: j :: l) (r.length + 2) (r.length + 2 + j.toNat)
      = l.take j.toNat := by
    unfold sliceFromTo
    rw [← List.drop_drop, List.drop_left, Nat.add_sub_cancel_left]
    rfl
  unfold readIntegers
  rw [hk]
  simp only [htag, hlen, hslice, List.take_left, Effect.ok_bind]
  rw [raiseIf_neg (by simp)]
  rfl

/-- The two strings a pair of INTEGERs carries are what the slices cut out. -/
theorem derToRs_pair (len : UInt8) {a b : Bytes} (ha : a.length < 256) (hb : b.length < 256)
    (hlen : len.toNat = a.length + b.length + 4) (hda : (dropSign a).length ≤ 32)
    (hdb : (dropSign b).length ≤ 32) :
    derToRs (0x30 :: len :: 0x02 :: UInt8.ofNat a.length ::
        (a ++ 0x02 :: UInt8.ofNat b.length :: b))
      = .ok (rjust32 (dropSign a), rjust32 (dropSign b)) := by
  have hla : (UInt8.ofNat a.length).toNat = a.length := UInt8.toNat_ofNat_of_lt' ha
  have hlb : (UInt8.ofNat b.length).toNat = b.length := UInt8.toNat_ofNat_of_lt' hb
  have hframe : len.toNat = (a ++ 0x02 :: UInt8.ofNat b.length :: b).length + 2 := by
    simp only [List.length_append, List.length_cons]
    omega
  rw [derToRs_framed hframe, readIntegers_append a b hla, hlb, List.take_length,
    raiseIf_neg (by omega)]
  rfl

/-- Without its sign byte and padded again, the shortest form of a number below `2 ^ 256` is the
32-byte form. -/
theorem rjust32_body {n : ℕ} (h : n < 256 ^ 32) :
    (dropSign (Der.body byteDigit n)).length ≤ 32 ∧
      rjust32 (dropSign (Der.body byteDigit n)) = Radix.digits byteDigit 32 n := by
  have hvalue : Radix.value byteDigit (Der.body byteDigit n) = n := Der.value_body byteDigit n
  have hlen := Der.length_body byteDigit n
  have hwidth := Der.width_le h
  by_cases h33 : Der.width n = 33
  · -- the 33rd byte can only be the sign byte, as the other 32 spell a number as large as that
    cases hbody : Der.body byteDigit n with
    | nil =>
      rw [hbody, List.length_nil] at hlen
      omega
    | cons b l =>
      rw [hbody] at hlen hvalue
      have hl : l.length = 32 := Nat.succ.inj (hlen.trans h33)
      have hb : b = 0 := by
        by_contra hne
        have hge := Radix.pow_le_value byteDigit l (d := b) hne
        rw [hvalue, hl] at hge
        omega
      have hdrop : dropSign (b :: l) = l := by
        rw [dropSign, if_pos ⟨hlen.trans h33, by rw [hb]; rfl⟩]
        rfl
      rw [hdrop, rjust32, hl, Nat.sub_self, List.replicate_zero, List.nil_append]
      refine ⟨le_rfl, (Radix.eq_digits_iff byteDigit h).mpr ⟨hl, ?_⟩⟩
      rw [← hvalue, hb]
      exact (intFromBytes_zero_cons l).symm
  · have hdrop : dropSign (Der.body byteDigit n) = Der.body byteDigit n :=
      if_neg fun hsign => h33 (hlen.symm.trans hsign.1)
    rw [hdrop]
    refine ⟨by omega, (Radix.eq_digits_iff byteDigit h).mpr ⟨?_, ?_⟩⟩
    · rw [rjust32, List.length_append, List.length_replicate]
      omega
    · exact (Radix.value_replicate_zero byteDigit _ _).trans hvalue

/-- **Reading back.** -/
theorem derToRs_signature {r s : ℕ} (hr : r < 256 ^ 32) (hs : s < 256 ^ 32) :
    derToRs (Der.signature byteDigit r s)
      = .ok (Radix.digits byteDigit 32 r, Radix.digits byteDigit 32 s) := by
  obtain ⟨hrlen, hrdigits⟩ := rjust32_body hr
  obtain ⟨hslen, hsdigits⟩ := rjust32_body hs
  have hwr := Der.width_le hr
  have hws := Der.width_le hs
  have hsum : (Der.integer byteDigit r ++ Der.integer byteDigit s).length
      = Der.width r + Der.width s + 4 := by
    rw [List.length_append, Der.length_integer, Der.length_integer]
    omega
  -- each length, and the length of both together, fits one byte
  have hra : (Der.body byteDigit r).length < 256 := by
    rw [Der.length_body]
    omega
  have hsa : (Der.body byteDigit s).length < 256 := by
    rw [Der.length_body]
    omega
  have htotal : (UInt8.ofNat (Der.width r + Der.width s + 4)).toNat
      = (Der.body byteDigit r).length + (Der.body byteDigit s).length + 4 := by
    rw [Der.length_body, Der.length_body]
    exact UInt8.toNat_ofNat_of_lt' (show _ < 256 by omega)
  have hpair := derToRs_pair _ hra hsa htotal hrlen hslen
  rw [hrdigits, hsdigits, Der.length_body, Der.length_body] at hpair
  unfold Der.signature
  rw [hsum]
  exact hpair

/-- What was read becomes the encoding again. -/
theorem rsToDer_digits {r s : ℕ} (hr : r < 256 ^ 32) (hs : s < 256 ^ 32) :
    rsToDer (Radix.digits byteDigit 32 r) (Radix.digits byteDigit 32 s)
      = .ok (Der.signature byteDigit r s) := by
  rw [rsToDer_eq (Radix.length_digits byteDigit 32 r) (Radix.length_digits byteDigit 32 s)]
  unfold intFromBytes
  rw [Radix.value_digits_of_lt byteDigit hr, Radix.value_digits_of_lt byteDigit hs]

/-- A strict encoding is read, and what is read becomes that encoding again. -/
theorem derToRs_of_isSignature {der : Bytes} {m n : ℕ} (hm : m < 2 ^ 256) (hn : n < 2 ^ 256)
    (h : Der.IsSignature byteDigit der m n) :
    derToRs der = .ok (Radix.digits byteDigit 32 m, Radix.digits byteDigit 32 n) ∧
      rsToDer (Radix.digits byteDigit 32 m) (Radix.digits byteDigit 32 n) = .ok der := by
  have hm' : m < 256 ^ 32 := by rwa [Der.pow_eq]
  have hn' : n < 256 ^ 32 := by rwa [Der.pow_eq]
  obtain ⟨rfl, -⟩ := (Der.isSignature_iff byteDigit).mp h
  exact ⟨derToRs_signature hm' hn', rsToDer_digits hm' hn'⟩

/-- **The conversions are inverse to each other.** Two strings of 32 bytes become the strict
encoding of their numbers and are read back from it; a strict encoding of two numbers below
`2 ^ 256` is read, and what is read becomes that encoding again. -/
theorem rsToDer_derToRs :
    (∀ r s : Bytes, r.length = 32 → s.length = 32 → ∃ der, rsToDer r s = .ok der ∧
      Der.IsSignature byteDigit der (intFromBytes r) (intFromBytes s) ∧
      derToRs der = .ok (r, s)) ∧
    (∀ (der : Bytes) (m n : ℕ), m < 2 ^ 256 → n < 2 ^ 256 →
      Der.IsSignature byteDigit der m n →
      ∃ r s, derToRs der = .ok (r, s) ∧ rsToDer r s = .ok der) := by
  refine ⟨?_, ?_⟩
  · intro r s hr hs
    have hback := rsToDer_eq hr hs
    obtain ⟨hrlt, hslt, hder⟩ := isSignature_of_rsToDer hback
    refine ⟨_, hback, hder, ?_⟩
    -- what is read are the 32 bytes of the number that was written
    have hdigits : ∀ x : Bytes, x.length = 32 → Radix.digits byteDigit 32 (intFromBytes x) = x := by
      intro x hx
      rw [← hx]
      exact Radix.digits_value byteDigit x
    rw [(derToRs_of_isSignature hrlt hslt hder).1, hdigits r hr, hdigits s hs]
  · intro der m n hm hn hder
    exact ⟨_, _, derToRs_of_isSignature hm hn hder⟩

end KeystoneCrypto
