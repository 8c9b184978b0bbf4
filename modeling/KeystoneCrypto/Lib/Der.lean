import KeystoneCrypto.Lib.Radix

/-!
# DER encodings of pairs of integers

The strict encoding of a nonnegative INTEGER is its shortest big-endian form whose first bit is
zero; a signature is the SEQUENCE of two of them. All lengths here are below 128, so each is one
byte. `width n` is the number of bytes of the shortest form, and `eq_body` is how an encoder is
shown to produce it: any string of bytes with the right value whose length is forced by that value
is the shortest form.

`IsInteger` and `IsSignature` state the encoding rules themselves, without a computation: tag,
length, a first bit of zero, no byte that could be left out. The rules admit one encoding for each
number and each pair (`isInteger_iff`, `isSignature_iff`).
-/

namespace Der

variable (e : UInt8 ≃ Fin 256)

/-- The length of the shortest form of `n` with a leading zero bit. -/
def width (n : ℕ) : ℕ := n.size / 8 + 1

/-- The shortest form of `n` with a leading zero bit. -/
def body (n : ℕ) : List UInt8 := Radix.digits e (width n) n

/-- The INTEGER `n`. -/
def integer (n : ℕ) : List UInt8 := [0x02, UInt8.ofNat (width n)] ++ body e n

/-- The SEQUENCE of the INTEGERs `r` and `s`. -/
def signature (r s : ℕ) : List UInt8 :=
  [0x30, UInt8.ofNat (integer e r ++ integer e s).length] ++ (integer e r ++ integer e s)

@[simp] theorem length_body (n : ℕ) : (body e n).length = width n := Radix.length_digits e _ _

theorem length_integer (n : ℕ) : (integer e n).length = width n + 2 := by
  unfold integer
  rw [List.length_append, length_body]
  exact Nat.add_comm _ _

theorem pow_eq (w : ℕ) : 256 ^ w = 2 ^ (8 * w) := by
  rw [pow_mul]
  rfl

theorem value_body (n : ℕ) : Radix.value e (body e n) = n := by
  refine Radix.value_digits_of_lt e ?_
  rw [pow_eq, ← Nat.size_le]
  unfold width
  omega

/-- The bounds that force the width. -/
theorem width_eq {n w : ℕ} (hlt : n < 2 ^ (8 * w + 7))
    (hge : w = 0 ∨ 2 ^ (8 * (w - 1) + 7) ≤ n) : width n = w + 1 := by
  -- the bounds pin the bit length down to the eight values of one width
  have hsize : n.size ≤ 8 * w + 7 := Nat.size_le.mpr hlt
  unfold width
  rcases hge with rfl | hge
  · omega
  · have hbig : 8 * (w - 1) + 7 < n.size := Nat.lt_size.mpr hge
    omega

/-- A string whose value forces its length is the shortest form of that value. -/
theorem eq_body {l : List UInt8} (h : width (Radix.value e l) = l.length) :
    l = body e (Radix.value e l) := by
  unfold body
  rw [h, Radix.digits_value]

theorem width_le {n w : ℕ} (h : n < 256 ^ w) : width n ≤ w + 1 := by
  rw [pow_eq, ← Nat.size_le] at h
  unfold width
  omega

/-! ### The first byte -/

/-- The first byte bounds the number from both sides. -/
theorem value_cons_bounds (b : UInt8) (l : List UInt8) :
    (e b : ℕ) * 2 ^ (8 * l.length) ≤ Radix.value e (b :: l) ∧
      Radix.value e (b :: l) < ((e b : ℕ) + 1) * 2 ^ (8 * l.length) := by
  have hrest : Radix.value e l < 2 ^ (8 * l.length) := by
    rw [← pow_eq]
    exact Radix.value_lt e l
  rw [Radix.value_cons, pow_eq, Nat.add_mul, Nat.one_mul]
  exact ⟨Nat.le_add_right _ _, Nat.add_lt_add_left hrest _⟩

/-- A first bit of one calls for a sign byte. -/
theorem width_of_hi {b : UInt8} {l : List UInt8} (h : 128 ≤ (e b : ℕ)) :
    width (Radix.value e (b :: l)) = l.length + 1 + 1 := by
  obtain ⟨hge, hlt⟩ := value_cons_bounds e b l
  have hb := (e b).isLt
  refine width_eq ?_ (.inr ?_)
  · -- a byte and its sign byte leave room for fifteen bits
    calc Radix.value e (b :: l) < ((e b : ℕ) + 1) * 2 ^ (8 * l.length) := hlt
      _ ≤ 2 ^ 15 * 2 ^ (8 * l.length) := Nat.mul_le_mul_right _ (by omega)
      _ = 2 ^ (8 * (l.length + 1) + 7) := by ring
  · calc 2 ^ (8 * (l.length + 1 - 1) + 7) = 128 * 2 ^ (8 * l.length) := by
          rw [Nat.add_sub_cancel]
          ring
      _ ≤ (e b : ℕ) * 2 ^ (8 * l.length) := Nat.mul_le_mul_right _ h
      _ ≤ Radix.value e (b :: l) := hge

/-- A first bit of zero needs none. -/
theorem width_of_lo {b : UInt8} {l : List UInt8} (h : (e b : ℕ) < 128)
    (hstop : l = [] ∨ (e b : ℕ) ≠ 0) : width (Radix.value e (b :: l)) = l.length + 1 := by
  obtain ⟨hge, hlt⟩ := value_cons_bounds e b l
  refine width_eq ?_ ?_
  · calc Radix.value e (b :: l) < ((e b : ℕ) + 1) * 2 ^ (8 * l.length) := hlt
      _ ≤ 2 ^ 7 * 2 ^ (8 * l.length) := Nat.mul_le_mul_right _ (by omega)
      _ = 2 ^ (8 * l.length + 7) := by ring
  · by_cases hnil : l = []
    · exact .inl (by rw [hnil]; rfl)
    · -- the first byte is not zero, so the value needs all bytes behind it
      right
      have hlen : 0 < l.length := List.length_pos_iff.mpr hnil
      have hpos : 1 ≤ (e b : ℕ) := Nat.one_le_iff_ne_zero.mpr (hstop.resolve_left hnil)
      calc 2 ^ (8 * (l.length - 1) + 7) ≤ 2 ^ (8 * l.length) :=
            Nat.pow_le_pow_right (by decide) (by omega)
        _ = 1 * 2 ^ (8 * l.length) := (Nat.one_mul _).symm
        _ ≤ (e b : ℕ) * 2 ^ (8 * l.length) := Nat.mul_le_mul_right _ hpos
        _ ≤ Radix.value e (b :: l) := hge

/-! ### The encoding rules -/

/-- Contents of a nonnegative INTEGER: the first bit is zero, and the first nine bits are not all
zero unless there is one byte only. -/
def Strict (c : List UInt8) : Prop :=
  ∃ b l, c = b :: l ∧ (e b : ℕ) < 128 ∧ ((e b : ℕ) = 0 → ∀ d ∈ l.head?, 128 ≤ (e d : ℕ))

/-- The encoding rules of the nonnegative INTEGER `n`. -/
def IsInteger (l : List UInt8) (n : ℕ) : Prop :=
  ∃ c, l = 0x02 :: UInt8.ofNat c.length :: c ∧ c.length < 128 ∧ Strict e c ∧ Radix.value e c = n

/-- The encoding rules of the SEQUENCE of two nonnegative INTEGERs. -/
def IsSignature (l : List UInt8) (r s : ℕ) : Prop :=
  ∃ a b, IsInteger e a r ∧ IsInteger e b s ∧ (a ++ b).length < 128 ∧
    l = 0x30 :: UInt8.ofNat (a ++ b).length :: (a ++ b)

/-- Strict contents are as long as their value requires. -/
theorem width_of_strict {c : List UInt8} (h : Strict e c) :
    width (Radix.value e c) = c.length := by
  obtain ⟨b, l, rfl, hlo, hmin⟩ := h
  by_cases hb : (e b : ℕ) = 0
  · cases l with
    | nil => exact width_of_lo e hlo (.inl rfl)
    | cons d l =>
      -- a leading zero byte stands for the sign, so the next byte has its first bit set
      rw [Radix.value_cons, hb, Nat.zero_mul, Nat.zero_add,
        width_of_hi e (hmin hb d rfl), List.length_cons, List.length_cons]
  · exact width_of_lo e hlo (.inr hb)

/-- The first byte of the shortest form has its first bit clear. -/
theorem strict_body (n : ℕ) : Strict e (body e n) := by
  have hvalue := value_body e n
  have hlen := length_body e n
  cases hbody : body e n with
  | nil =>
    rw [hbody] at hlen
    exact absurd hlen (Nat.succ_ne_zero _).symm
  | cons b l =>
    rw [hbody] at hvalue hlen
    rw [List.length_cons] at hlen
    refine ⟨b, l, rfl, ?_, ?_⟩
    · by_contra hhi
      -- a set first bit would make the shortest form longer
      have hwidth := width_of_hi e (l := l) (Nat.not_lt.mp hhi)
      rw [hvalue] at hwidth
      omega
    · intro hzero d hd
      cases l with
      | nil => cases hd
      | cons d' l =>
        obtain rfl : d' = d := Option.some.inj hd
        by_contra hlo
        -- without its leading zero the string would be as good
        have hvalue' : Radix.value e (d' :: l) = n := by
          rw [← hvalue, Radix.value_cons e b, hzero, Nat.zero_mul, Nat.zero_add]
        have hlt := (value_cons_bounds e d' l).2
        rw [hvalue'] at hlt
        have hsize : n.size ≤ 8 * l.length + 7 := by
          refine Nat.size_le.mpr (lt_of_lt_of_le hlt ?_)
          calc ((e d' : ℕ) + 1) * 2 ^ (8 * l.length) ≤ 2 ^ 7 * 2 ^ (8 * l.length) :=
                Nat.mul_le_mul_right _ (by omega)
            _ = 2 ^ (8 * l.length + 7) := by ring
        rw [List.length_cons] at hlen
        unfold width at hlen
        omega

/-- **One encoding for each number.** -/
theorem isInteger_iff {l : List UInt8} {n : ℕ} :
    IsInteger e l n ↔ l = integer e n ∧ width n < 128 := by
  unfold IsInteger integer
  refine ⟨?_, ?_⟩
  · rintro ⟨c, rfl, hlen, hstrict, rfl⟩
    have hwidth := width_of_strict e hstrict
    refine ⟨?_, hwidth ▸ hlen⟩
    rw [hwidth, ← eq_body e hwidth]
    rfl
  · rintro ⟨rfl, hlen⟩
    refine ⟨body e n, ?_, by rwa [length_body], strict_body e n, value_body e n⟩
    rw [length_body]
    rfl

/-- **One encoding for each pair.** -/
theorem isSignature_iff {l : List UInt8} {r s : ℕ} :
    IsSignature e l r s ↔ l = signature e r s ∧ width r + width s + 4 < 128 := by
  have hlen : (integer e r ++ integer e s).length = width r + width s + 4 := by
    rw [List.length_append, length_integer, length_integer]
    omega
  unfold IsSignature signature
  refine ⟨?_, ?_⟩
  · rintro ⟨a, b, ha, hb, hshort, rfl⟩
    rw [((isInteger_iff e).mp ha).1, ((isInteger_iff e).mp hb).1] at hshort ⊢
    exact ⟨rfl, hlen ▸ hshort⟩
  · rintro ⟨rfl, hshort⟩
    refine ⟨integer e r, integer e s, (isInteger_iff e).mpr ⟨rfl, by omega⟩,
      (isInteger_iff e).mpr ⟨rfl, by omega⟩, hlen ▸ hshort, rfl⟩

end Der
