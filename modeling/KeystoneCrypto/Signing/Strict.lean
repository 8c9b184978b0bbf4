import KeystoneCrypto.Signing.Der

/-!
# What the DER reader accepts

`_der_to_rs` compares tags and the outer length, and bounds the size of the two contents. It neither
asks whether there is a byte at an offset before it reads it, nor how the contents are encoded, nor
whether the second length is the one of what is left. So there are three kinds of strings. The `Cut`
ones end where the reader still looks for a byte, and it raises `IndexError`. The `Refused` ones
fail a check. All others are `Read`, and among them are strings that are no strict encoding.

Every string is of one of these kinds, which is seen by following it from its front
(`cut_or_refused_or_read`), and for each kind one lemma says what the reader does. So
`derToRs_strict_iff`, which says which strings leave the reader strict and total, is left with the
`Read` ones: those that the writer gives back are the strict encodings.
-/

namespace KeystoneCrypto

/-! ### Three kinds of strings -/

/-- Contents that do not fit 32 bytes, even without a sign byte. -/
def Oversized (c : Bytes) : Prop := 33 < c.length ∨ c.length = 33 ∧ c.head? ≠ some 0

/-- The strings that end too early for the reader. -/
inductive Cut : Bytes → Prop
  | nil : Cut []
  | tag : Cut [0x30]
  | empty : Cut [0x30, 0]
  | rLen : Cut [0x30, 1, 0x02]
  | sTag {n k : UInt8} {l : Bytes} (h : n.toNat = l.length + 2) (hk : l.length ≤ k.toNat) :
      Cut (0x30 :: n :: 0x02 :: k :: l)
  | sLen {n k : UInt8} {r : Bytes} (h : n.toNat = r.length + 3) (hk : k.toNat = r.length) :
      Cut (0x30 :: n :: 0x02 :: k :: (r ++ [0x02]))

/-- The strings that fail a check of the reader. -/
inductive Refused : Bytes → Prop
  | tag {b : UInt8} {l : Bytes} (hb : b ≠ 0x30) : Refused (b :: l)
  | length {n : UInt8} {l : Bytes} (h : n.toNat ≠ l.length) : Refused (0x30 :: n :: l)
  | rTag {n t : UInt8} {l : Bytes} (h : n.toNat = l.length + 1) (ht : t ≠ 0x02) :
      Refused (0x30 :: n :: t :: l)
  | sTag {n k t : UInt8} {r l : Bytes} (h : n.toNat = (r ++ t :: l).length + 2)
      (hk : k.toNat = r.length) (ht : t ≠ 0x02) :
      Refused (0x30 :: n :: 0x02 :: k :: (r ++ t :: l))
  | size {n k j : UInt8} {r l : Bytes} (h : n.toNat = (r ++ 0x02 :: j :: l).length + 2)
      (hk : k.toNat = r.length) (hsize : Oversized r ∨ Oversized (l.take j.toNat)) :
      Refused (0x30 :: n :: 0x02 :: k :: (r ++ 0x02 :: j :: l))

/-- The strings that are read, with the contents that are cut out of them. -/
inductive Read : Bytes → Bytes → Bytes → Prop
  | mk {n k j : UInt8} {r l : Bytes} (h : n.toNat = (r ++ 0x02 :: j :: l).length + 2)
      (hk : k.toNat = r.length) (hr : ¬ Oversized r) (hs : ¬ Oversized (l.take j.toNat)) :
      Read (0x30 :: n :: 0x02 :: k :: (r ++ 0x02 :: j :: l)) r (l.take j.toNat)

/-- Behind a right frame it depends on what stands behind the first contents. -/
theorem kind_of_framed {n : UInt8} {l : Bytes} (hn : n.toNat = l.length + 2) (k : UInt8) :
    Cut (0x30 :: n :: 0x02 :: k :: l) ∨ Refused (0x30 :: n :: 0x02 :: k :: l) ∨
      ∃ r s, Read (0x30 :: n :: 0x02 :: k :: l) r s := by
  by_cases hk : l.length ≤ k.toNat
  · exact .inl (.sTag hn hk)
  -- the first contents, and a byte behind them
  have hlt := Nat.lt_of_not_le hk
  have hr : k.toNat = (l.take k.toNat).length := by
    rw [List.length_take, min_eq_left hlt.le]
  have hsplit : l = l.take k.toNat ++ l[k.toNat] :: l.drop (k.toNat + 1) := by
    rw [← List.drop_eq_getElem_cons, List.take_append_drop]
  generalize l.take k.toNat = r at hr hsplit
  generalize l.drop (k.toNat + 1) = rest at hsplit
  generalize l[k.toNat] = t at hsplit
  subst hsplit
  by_cases ht : t = 0x02
  swap
  · exact .inr (.inl (.sTag hn hr ht))
  subst ht
  cases rest with
  | nil =>
    rw [List.length_append] at hn
    exact .inl (.sLen hn hr)
  | cons j rest =>
    by_cases hsize : Oversized r ∨ Oversized (rest.take j.toNat)
    · exact .inr (.inl (.size hn hr hsize))
    · rw [not_or] at hsize
      exact .inr (.inr ⟨r, _, .mk hn hr hsize.1 hsize.2⟩)

/-- **Every string is of one kind.** The cases follow the string from its front. -/
theorem cut_or_refused_or_read (der : Bytes) : Cut der ∨ Refused der ∨ ∃ r s, Read der r s := by
  cases der with
  | nil => exact .inl .nil
  | cons b l =>
    by_cases hb : b = 0x30
    swap
    · exact .inr (.inl (.tag hb))
    subst hb
    cases l with
    | nil => exact .inl .tag
    | cons n l =>
      by_cases hn : n.toNat = l.length
      swap
      · exact .inr (.inl (.length hn))
      cases l with
      | nil =>
        obtain rfl : n = 0 := UInt8.toNat_inj.mp hn
        exact .inl .empty
      | cons t l =>
        by_cases ht : t = 0x02
        swap
        · exact .inr (.inl (.rTag hn ht))
        subst ht
        cases l with
        | nil =>
          obtain rfl : n = 1 := UInt8.toNat_inj.mp hn
          exact .inl .rLen
        | cons k l => exact kind_of_framed hn k

/-! ### What the reader does -/

theorem oversized_iff {c : Bytes} : Oversized c ↔ 32 < (dropSign c).length := by
  -- a sign byte is dropped from 33 bytes that start with zero and from no others
  unfold Oversized dropSign
  by_cases hsign : c.length = 33 ∧ c.head? = some 0
  · rw [if_pos hsign, List.length_drop, hsign.1]
    refine iff_of_false ?_ (by decide)
    rintro (hlen | ⟨-, hhead⟩)
    · omega
    · exact hhead hsign.2
  · rw [if_neg hsign]
    refine ⟨?_, fun hlen => ?_⟩
    · rintro (hlen | ⟨hlen, -⟩) <;> omega
    · by_cases h33 : c.length = 33
      · exact .inr ⟨h33, fun hhead => hsign ⟨h33, hhead⟩⟩
      · exact .inl (by omega)

theorem derToRs_of_cut {der : Bytes} (h : Cut der) :
    derToRs der = .error ⟨.indexError, [.foreign "index out of range"]⟩ := by
  cases h with
  | nil => rfl
  | tag => rfl
  | empty => rfl
  | rLen => rfl
  | sTag h hk =>
    rw [derToRs_framed h, readIntegers, indexAt_of_le hk]
    rfl
  | @sLen n k r h hk =>
    -- the tag of the second INTEGER is the last byte
    have hframe : n.toNat = (r ++ [0x02]).length + 2 := by
      rw [List.length_append]
      exact h
    have htag : indexAt (r ++ [0x02]) r.length = .ok 0x02 := indexAt_append_right r [0x02] 0
    have hend : (r ++ [(0x02 : UInt8)]).length ≤ r.length + 1 := by
      rw [List.length_append]
      rfl
    rw [derToRs_framed hframe, readIntegers, hk, htag, Effect.ok_bind, raiseIf_neg (by simp),
      Effect.ok_bind, indexAt_of_le hend]
    rfl

theorem derToRs_of_refused {der : Bytes} (h : Refused der) :
    ∃ e, derToRs der = .error e ∧ e.type = .signatureError := by
  cases h with
  | @tag b l hb =>
    refine ⟨⟨.signatureError, [.lit "bad DER: expected SEQUENCE"]⟩, ?_, rfl⟩
    unfold derToRs
    rw [show indexAt (b :: l) 0 = .ok b from rfl, Effect.ok_bind, raiseIf_pos hb]
    rfl
  | @length n l h =>
    refine ⟨⟨.signatureError, [.lit "bad DER: length mismatch"]⟩, ?_, rfl⟩
    have hne : n.toNat + 2 ≠ (0x30 :: n :: l : Bytes).length := fun hlen =>
      h (Nat.succ.inj (Nat.succ.inj hlen))
    unfold derToRs
    rw [show indexAt (0x30 :: n :: l) 0 = .ok 0x30 from rfl, Effect.ok_bind, raiseIf_neg (by simp),
      Effect.ok_bind, show indexAt (0x30 :: n :: l) 1 = .ok n from rfl, Effect.ok_bind,
      raiseIf_pos hne]
    rfl
  | @rTag n t l h ht =>
    refine ⟨⟨.signatureError, [.lit "bad DER: expected INTEGER for r"]⟩, ?_, rfl⟩
    have hlen : n.toNat + 2 = (0x30 :: n :: t :: l : Bytes).length := congrArg (· + 2) h
    unfold derToRs
    rw [show indexAt (0x30 :: n :: t :: l) 0 = .ok 0x30 from rfl, Effect.ok_bind,
      raiseIf_neg (by simp), Effect.ok_bind,
      show indexAt (0x30 :: n :: t :: l) 1 = .ok n from rfl, Effect.ok_bind,
      raiseIf_neg (not_not.mpr hlen), Effect.ok_bind,
      show indexAt (0x30 :: n :: t :: l) 2 = .ok t from rfl, Effect.ok_bind, raiseIf_pos ht]
    rfl
  | @sTag n k t r l h hk ht =>
    refine ⟨⟨.signatureError, [.lit "bad DER: expected INTEGER for s"]⟩, ?_, rfl⟩
    have htag : indexAt (r ++ t :: l) r.length = .ok t := indexAt_append_right r (t :: l) 0
    rw [derToRs_framed h, readIntegers, hk, htag, Effect.ok_bind, raiseIf_pos ht]
    rfl
  | @size n k j r l h hk hsize =>
    refine ⟨⟨.signatureError, [.lit "DER component too large for secp256k1"]⟩, ?_, rfl⟩
    rw [derToRs_framed h, readIntegers_append r l hk,
      raiseIf_pos (hsize.imp oversized_iff.mp oversized_iff.mp)]
    rfl

theorem derToRs_of_read {der r s : Bytes} (h : Read der r s) :
    derToRs der = .ok (rjust32 (dropSign r), rjust32 (dropSign s)) := by
  cases h with
  | mk h hk hr hs =>
    -- the size check is made after the sign bytes were dropped
    rw [oversized_iff] at hr hs
    rw [derToRs_framed h, readIntegers_append _ _ hk, raiseIf_neg (not_or.mpr ⟨hr, hs⟩)]
    rfl

/-! ### Strictness -/

/-- On this string the reader is strict and total: it raises `SignatureError`, or it returns two
strings of 32 bytes that the writer turns back into this string. -/
def ReadsStrictly (der : Bytes) : Prop :=
  (∃ e, derToRs der = .error e ∧ e.type = .signatureError) ∨
    ∃ r s, derToRs der = .ok (r, s) ∧ r.length = 32 ∧ s.length = 32 ∧ rsToDer r s = .ok der

/-- **When the reader is strict and total.** Exactly on the strings that fail one of its checks and
on the strict encodings of two numbers below `2 ^ 256`. -/
theorem derToRs_strict_iff (der : Bytes) :
    ReadsStrictly der ↔ Refused der ∨
      ∃ m n, m < 2 ^ 256 ∧ n < 2 ^ 256 ∧ Der.IsSignature byteDigit der m n := by
  refine ⟨fun h => ?_, ?_⟩
  · rcases cut_or_refused_or_read der with hcut | hrefused | ⟨a, b, hread⟩
    · -- an `IndexError` is neither
      exfalso
      rcases h with ⟨e, he, htype⟩ | ⟨r, s, hok, -⟩
      · rw [derToRs_of_cut hcut, Except.error.injEq] at he
        rw [← he] at htype
        cases htype
      · cases (derToRs_of_cut hcut).symm.trans hok
    · exact .inl hrefused
    · rcases h with ⟨e, he, -⟩ | ⟨r, s, -, -, -, hback⟩
      · cases (derToRs_of_read hread).symm.trans he
      · exact .inr ⟨_, _, isSignature_of_rsToDer hback⟩
  · rintro (hrefused | ⟨m, n, hm, hn, hder⟩)
    · exact .inl (derToRs_of_refused hrefused)
    · obtain ⟨hread, hback⟩ := derToRs_of_isSignature hm hn hder
      exact .inr ⟨_, _, hread, Radix.length_digits byteDigit 32 m,
        Radix.length_digits byteDigit 32 n, hback⟩

/-- The strict encoding of the numbers 1 and 1. -/
def oneOne : Bytes := [0x30, 6, 0x02, 1, 1, 0x02, 1, 1]

/-- **Not total and not strict.** The empty string raises `IndexError`. A byte behind the second
INTEGER, a length that points past the end and a zero byte in front are read like the strict
encoding, and a negative number is read as a positive one. -/
theorem derToRs_lax :
    derToRs [] = .error ⟨.indexError, [.foreign "index out of range"]⟩ ∧
    (∀ der ∈ [[0x30, 7, 0x02, 1, 1, 0x02, 1, 1, 0], [0x30, 6, 0x02, 1, 1, 0x02, 9, 1],
        [0x30, 7, 0x02, 2, 0, 1, 0x02, 1, 1]],
      (derToRs der).bind (fun p => rsToDer p.1 p.2) = .ok oneOne) ∧
    (derToRs [0x30, 6, 0x02, 1, 0x80, 0x02, 1, 1]).bind (fun p => rsToDer p.1 p.2)
      = .ok [0x30, 7, 0x02, 2, 0, 0x80, 0x02, 1, 1] ∧
    ¬ ∀ der, ReadsStrictly der := by
  refine ⟨rfl, by decide +kernel, by decide +kernel, fun h => ?_⟩
  rcases h [] with ⟨e, he, htype⟩ | ⟨r, s, hok, -⟩
  · rw [derToRs_of_cut .nil, Except.error.injEq] at he
    rw [← he] at htype
    cases htype
  · cases (derToRs_of_cut .nil).symm.trans hok

end KeystoneCrypto
