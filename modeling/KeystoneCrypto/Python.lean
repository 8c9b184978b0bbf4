import KeystoneCrypto.Exceptions
import KeystoneCrypto.Lib.Radix
import KeystoneCrypto.Lib.Text

/-!
# Built-ins of the interpreter

The parts of the Python runtime that the library computes with: sequence slicing and indexing,
integers as big-endian bytes, `struct` packing, binary digit strings, and the string methods. Each
is total or fallible exactly where Python's is; a failure carries the class Python raises.

A string of the characters `'0'` and `'1'` is a list of Booleans. Integers written to bytes go
through `Radix.digits`, integers read from bytes through `Radix.value`, at the digit types of
this file (`byteDigit`, `bitDigit`).

What is a digit depends on the interpreter. The tables are those of CPython 3.11, the oldest version
the package admits, which carries Unicode 14; the versions 3.12 and 3.13 carry Unicode 15, whose
further digits are not in them.
-/

namespace KeystoneCrypto

/-! ### Sequences -/

/-- `l[a:b]` for nonnegative bounds; bounds past the end are cut short. -/
def sliceFromTo {α : Type} (l : List α) (a b : ℕ) : List α :=
  (l.drop a).take (b - a)

/-- `l[:-k]`; as in Python, `-0` is `0`. -/
def sliceDropEnd {α : Type} (l : List α) (k : ℕ) : List α :=
  if k = 0 then [] else l.take (l.length - k)

/-- `l[-k:]`; as in Python, `-0` is `0`. -/
def sliceTakeEnd {α : Type} (l : List α) (k : ℕ) : List α :=
  if k = 0 then l else l.drop (l.length - k)

/-- `l[i]` for a nonnegative index. -/
def indexAt {α : Type} (l : List α) (i : ℕ) : Except PyExc α :=
  match l[i]? with
  | some a => .ok a
  | none => raise .indexError [.foreign "index out of range"]

theorem indexAt_of_lt {α : Type} {l : List α} {i : ℕ} (h : i < l.length) :
    indexAt l i = .ok l[i] := by
  simp [indexAt, h]

theorem indexAt_of_le {α : Type} {l : List α} {i : ℕ} (h : l.length ≤ i) :
    indexAt l i = .error ⟨.indexError, [.foreign "index out of range"]⟩ := by
  simp [indexAt, h, raise]

theorem indexAt_eq_ok_iff {α : Type} {l : List α} {i : ℕ} {a : α} :
    indexAt l i = .ok a ↔ l[i]? = some a := by
  unfold indexAt raise
  cases l[i]? <;> simp

theorem indexAt_append_right {α : Type} (l₁ l₂ : List α) (i : ℕ) :
    indexAt (l₁ ++ l₂) (l₁.length + i) = indexAt l₂ i := by
  unfold indexAt
  rw [List.getElem?_append_right (Nat.le_add_right _ _), Nat.add_sub_cancel_left]

theorem getD_of_lt {α : Type} {l : List α} {i : ℕ} {d : α} (h : i < l.length) :
    l.getD i d = l[i] := by
  rw [List.getD_eq_getElem?_getD, List.getElem?_eq_getElem h, Option.getD_some]

/-- `list(range(0, stop, step))`. -/
def rangeStep (stop step : ℕ) : List ℕ :=
  (List.range ((stop + (step - 1)) / step)).map (step * ·)

/-- The lookup in `{w: i for i, w in enumerate(l)}`; a later entry replaces an earlier one. -/
def enumerateDict {α : Type} [DecidableEq α] (l : List α) (w : α) : Option ℕ :=
  -- one assignment for each index, in order
  l.zipIdx.foldl (fun d p => if p.1 = w then some p.2 else d) none

/-- Over distinct keys the dictionary inverts indexing. -/
theorem enumerateDict_eq_some_iff {α : Type} [DecidableEq α] {l : List α} (h : l.Nodup) {w : α}
    {i : ℕ} : enumerateDict l w = some i ↔ l[i]? = some w := by
  induction l using List.reverseRecOn with
  | nil => simp [enumerateDict]
  | append_singleton l a ih =>
    obtain ⟨hl, -, hdisj⟩ := List.nodup_append.mp h
    have hstep : enumerateDict (l ++ [a]) w
        = if a = w then some l.length else enumerateDict l w := by
      simp [enumerateDict, List.zipIdx_append]
    rw [hstep]
    by_cases haw : a = w
    · -- the last entry is the one for `w`, and no earlier one is
      subst haw
      rw [if_pos rfl, Option.some.injEq]
      refine ⟨?_, ?_⟩
      · rintro rfl
        simp
      · intro hi
        by_contra hne
        have hlt : i < l.length := by
          have := (List.getElem?_eq_some_iff.mp hi).1
          rw [List.length_append, List.length_singleton] at this
          omega
        rw [List.getElem?_append_left hlt] at hi
        exact hdisj a (List.mem_of_getElem? hi) a List.mem_cons_self rfl
    · -- the last entry is for another key
      rw [if_neg haw, ih hl]
      by_cases hlt : i < l.length
      · rw [List.getElem?_append_left hlt]
      · rw [List.getElem?_eq_none (Nat.not_lt.mp hlt),
          List.getElem?_append_right (Nat.not_lt.mp hlt)]
        cases i - l.length with
        | zero => simp [haw]
        | succ k => simp

@[simp] theorem length_sliceFromTo {α : Type} (l : List α) (a b : ℕ) :
    (sliceFromTo l a b).length = min (b - a) (l.length - a) := by
  simp [sliceFromTo]

/-- The slice between the lengths of a prefix and of the text behind it is that text. -/
theorem sliceFromTo_middle {α : Type} (l₁ l₂ l₃ : List α) {a b : ℕ} (h₁ : l₁.length = a)
    (h₂ : a + l₂.length = b) : sliceFromTo (l₁ ++ (l₂ ++ l₃)) a b = l₂ := by
  subst h₁ h₂
  simp [sliceFromTo]

theorem sliceFromTo_sliceFromTo {α : Type} (l : List α) {a b c d : ℕ} (h : a + d ≤ b) :
    sliceFromTo (sliceFromTo l a b) c d = sliceFromTo l (a + c) (a + d) := by
  unfold sliceFromTo
  rw [List.drop_take, List.drop_drop, List.take_take, Nat.add_sub_add_left,
    min_eq_left (by omega)]

/-- Adjacent slices. -/
theorem sliceFromTo_append {α : Type} (l : List α) {a b c : ℕ} (hab : a ≤ b) (hbc : b ≤ c) :
    sliceFromTo l a b ++ sliceFromTo l b c = sliceFromTo l a c := by
  obtain ⟨m, rfl⟩ := Nat.exists_eq_add_of_le hab
  obtain ⟨n, rfl⟩ := Nat.exists_eq_add_of_le hbc
  unfold sliceFromTo
  rw [Nat.add_sub_cancel_left, Nat.add_sub_cancel_left, Nat.add_assoc, Nat.add_sub_cancel_left,
    List.take_add, List.drop_drop]

/-- A list from a position on, cut once more. -/
theorem sliceFromTo_append_drop {α : Type} (l : List α) {a b : ℕ} (h : a ≤ b) :
    sliceFromTo l a b ++ l.drop b = l.drop a := by
  have hdrop := List.drop_drop (l := l) (i := b - a) (j := a)
  rw [Nat.add_sub_cancel' h] at hdrop
  rw [sliceFromTo, ← hdrop, List.take_append_drop]

section SliceAgree

variable {α : Type} {l l' : List α} {a b n : ℕ}

/-- Lists that agree up to `a` and between `a` and `b` agree up to `b`. -/
theorem take_eq_of_sliceFromTo_eq (hab : a ≤ b) (h : l.take a = l'.take a)
    (hs : sliceFromTo l a b = sliceFromTo l' a b) : l.take b = l'.take b := by
  have hsplit : ∀ l : List α, l.take b = l.take a ++ sliceFromTo l a b := by
    intro l
    rw [sliceFromTo, ← List.take_add, Nat.add_sub_cancel' hab]
  rw [hsplit l, hsplit l', h, hs]

/-- Lists that agree between `a` and `b` and from `b` on agree from `a` on. -/
theorem drop_eq_of_sliceFromTo_eq (hab : a ≤ b) (hs : sliceFromTo l a b = sliceFromTo l' a b)
    (h : l.drop b = l'.drop b) : l.drop a = l'.drop a := by
  have hsplit : ∀ l : List α, l.drop a = sliceFromTo l a b ++ l.drop b := by
    intro l
    have hdrop := List.drop_drop (l := l) (i := b - a) (j := a)
    rw [Nat.add_sub_cancel' hab] at hdrop
    rw [sliceFromTo, ← hdrop, List.take_append_drop]
  rw [hsplit l, hsplit l', h, hs]

theorem sliceFromTo_eq_of_take_eq (h : l.take n = l'.take n) (hb : b ≤ n) :
    sliceFromTo l a b = sliceFromTo l' a b := by
  have hcut : ∀ l : List α, sliceFromTo l a b = sliceFromTo (l.take n) a b := by
    intro l
    unfold sliceFromTo
    rw [List.drop_take, List.take_take, min_eq_left (by omega)]
  rw [hcut l, hcut l', h]

theorem sliceFromTo_eq_of_drop_eq (h : l.drop n = l'.drop n) (ha : n ≤ a) :
    sliceFromTo l a b = sliceFromTo l' a b := by
  obtain ⟨k, rfl⟩ := Nat.exists_eq_add_of_le ha
  unfold sliceFromTo
  rw [← List.drop_drop, ← List.drop_drop, h]

end SliceAgree

/-! ### Integers and bytes -/

-- the base of `byteDigit`, as the fixed-width encodings of all modules refer to it
instance instNeZeroByteBase : NeZero 256 := ⟨by decide⟩

/-- A byte as a digit of the base 256. -/
def byteDigit : UInt8 ≃ Fin 256 where
  toFun x := x.toFin
  invFun := UInt8.ofFin
  left_inv _ := rfl
  right_inv _ := rfl

@[simp] theorem byteDigit_val (x : UInt8) : (byteDigit x : ℕ) = x.toNat := rfl

/-- `int.from_bytes(b, "big")`. -/
def intFromBytes (b : Bytes) : ℕ := Radix.value byteDigit b

/-- `n.to_bytes(k, "big")` for a nonnegative `n`. -/
def intToBytes (n k : ℕ) : Except PyExc Bytes := do
  -- `OverflowError` when the number needs more than `k` bytes
  raiseIf (256 ^ k ≤ n) .overflowError [.foreign "int too big to convert"]
  return Radix.digits byteDigit k n

theorem intToBytes_of_lt {n k : ℕ} (h : n < 256 ^ k) :
    intToBytes n k = .ok (Radix.digits byteDigit k n) := by
  unfold intToBytes
  rw [raiseIf_neg (Nat.not_le.mpr h)]
  rfl

/-- `bytes([n])`. -/
def bytesOfInt (n : ℤ) : Except PyExc Bytes := do
  raiseIf (n < 0 ∨ 256 ≤ n) .valueError [.foreign "bytes must be in range(0, 256)"]
  return [UInt8.ofNat n.toNat]

theorem bytesOfInt_natCast {n : ℕ} (h : n < 256) : bytesOfInt n = .ok [UInt8.ofNat n] := by
  unfold bytesOfInt
  rw [raiseIf_neg (by omega)]
  rfl

/-- `struct.pack(">I", n)`. -/
def packU32 (n : ℤ) : Except PyExc Bytes := do
  raiseIf (n < 0 ∨ 2 ^ 32 ≤ n) .structError [.foreign "argument out of range"]
  return Radix.digits byteDigit 4 n.toNat

/-- One field of `struct.unpack(">I...", b)`: the four bytes at an offset. -/
def unpackU32 (b : Bytes) (off : ℕ) : ℤ :=
  intFromBytes (sliceFromTo b off (off + 4))

/-- `struct.pack(">q", n)`: eight bytes of the two's complement. -/
def packI64 (n : ℤ) : Except PyExc Bytes := do
  raiseIf (n < -2 ^ 63 ∨ 2 ^ 63 ≤ n) .structError [.foreign "argument out of range"]
  return Radix.digits byteDigit 8 (n % 2 ^ 64).toNat

/-- `struct.unpack(">q", b)[0]`. -/
def unpackI64 (b : Bytes) : Except PyExc ℤ := do
  raiseIf (b.length ≠ 8) .structError [.foreign "unpack requires a buffer of 8 bytes"]
  let v : ℤ := intFromBytes b
  -- the upper half of the range stands for the negative numbers
  return if v < 2 ^ 63 then v else v - 2 ^ 64

/-- Four bytes are determined by the number they spell. -/
theorem unpackU32_inj {b b' : Bytes} {off : ℕ} (h : off + 4 ≤ b.length)
    (h' : off + 4 ≤ b'.length) :
    unpackU32 b off = unpackU32 b' off ↔
      sliceFromTo b off (off + 4) = sliceFromTo b' off (off + 4) := by
  unfold unpackU32
  refine ⟨?_, ?_⟩
  · intro heq
    refine Radix.value_inj byteDigit ?_ (Int.ofNat_inj.mp heq)
    rw [length_sliceFromTo, length_sliceFromTo]
    omega
  · intro heq
    rw [heq]

theorem packU32_eq_ok_iff {n : ℤ} {b : Bytes} :
    packU32 n = .ok b ↔ 0 ≤ n ∧ n < 2 ^ 32 ∧ b = Radix.digits byteDigit 4 n.toNat := by
  unfold packU32 raiseIf
  by_cases h : n < 0 ∨ 2 ^ 32 ≤ n
  · rw [if_pos h]
    refine ⟨?_, ?_⟩
    · intro h'
      cases h'
    · intro h'
      omega
  · rw [if_neg h]
    push Not at h
    refine ⟨?_, ?_⟩
    · intro h'
      cases h'
      exact ⟨h.1, h.2, rfl⟩
    · rintro ⟨-, -, rfl⟩
      rfl

/-- Four bytes are the packing of the number they spell. -/
theorem packU32_unpackU32 {b : Bytes} {off : ℕ} (h : off + 4 ≤ b.length) :
    packU32 (unpackU32 b off) = .ok (sliceFromTo b off (off + 4)) := by
  have hlen : (sliceFromTo b off (off + 4)).length = 4 := by
    rw [length_sliceFromTo]
    omega
  have hlt := Radix.value_lt byteDigit (sliceFromTo b off (off + 4))
  have hdigits := Radix.digits_value byteDigit (sliceFromTo b off (off + 4))
  rw [hlen] at hlt hdigits
  refine packU32_eq_ok_iff.mpr ⟨Int.natCast_nonneg _, ?_, hdigits.symm⟩
  unfold unpackU32 intFromBytes
  norm_num at hlt
  omega

theorem length_of_packU32 {n : ℤ} {b : Bytes} (h : packU32 n = .ok b) : b.length = 4 := by
  obtain ⟨-, -, rfl⟩ := packU32_eq_ok_iff.mp h
  exact Radix.length_digits _ _ _

/-- Four packed bytes spell the packed number. -/
theorem intFromBytes_of_packU32 {n : ℤ} {b : Bytes} (h : packU32 n = .ok b) :
    (intFromBytes b : ℤ) = n := by
  obtain ⟨h0, h1, rfl⟩ := packU32_eq_ok_iff.mp h
  unfold intFromBytes
  rw [Radix.value_digits_of_lt byteDigit (show n.toNat < 256 ^ 4 by norm_num; omega)]
  omega

theorem packI64_eq_ok_iff {n : ℤ} {b : Bytes} :
    packI64 n = .ok b ↔
      -2 ^ 63 ≤ n ∧ n < 2 ^ 63 ∧ b = Radix.digits byteDigit 8 (n % 2 ^ 64).toNat := by
  unfold packI64 raiseIf
  by_cases hr : n < -2 ^ 63 ∨ 2 ^ 63 ≤ n
  · rw [if_pos hr]
    refine ⟨?_, ?_⟩
    · intro h
      cases h
    · intro h
      omega
  · rw [if_neg hr]
    push Not at hr
    refine ⟨?_, ?_⟩
    · intro h
      cases h
      exact ⟨hr.1, hr.2, rfl⟩
    · rintro ⟨-, -, rfl⟩
      rfl

theorem length_of_packI64 {n : ℤ} {b : Bytes} (h : packI64 n = .ok b) : b.length = 8 := by
  obtain ⟨-, -, rfl⟩ := packI64_eq_ok_iff.mp h
  exact Radix.length_digits _ _ _

/-- **Timestamps survive packing.** Unpacking eight packed bytes gives the packed number. -/
theorem unpackI64_of_packI64 {n : ℤ} {b : Bytes} (h : packI64 n = .ok b) :
    unpackI64 b = .ok n := by
  obtain ⟨h₁, h₂, rfl⟩ := packI64_eq_ok_iff.mp h
  -- the residue fits eight bytes
  have hmod : (n % 2 ^ 64).toNat < 256 ^ 8 := by
    have := Int.emod_lt_of_pos n (show (0 : ℤ) < 2 ^ 64 by norm_num)
    norm_num at this ⊢
    omega
  unfold unpackI64
  rw [raiseIf_neg (by simp)]
  simp only [intFromBytes, Radix.value_digits_of_lt byteDigit hmod]
  -- and undoing the wrap-around gives `n`, on either side of zero
  have hval : (if (((n % 2 ^ 64).toNat : ℕ) : ℤ) < 2 ^ 63 then (((n % 2 ^ 64).toNat : ℕ) : ℤ)
      else (((n % 2 ^ 64).toNat : ℕ) : ℤ) - 2 ^ 64) = n := by
    split <;> omega
  exact congrArg Except.ok hval

/-- **Eight bytes are the packing of a number**, since every residue is one of a number in range. -/
theorem exists_packI64 {b : Bytes} (h : b.length = 8) : ∃ n, packI64 n = .ok b := by
  have hlt : intFromBytes b < 256 ^ 8 := h ▸ Radix.value_lt byteDigit b
  have hdigits : Radix.digits byteDigit 8 (intFromBytes b) = b := by
    rw [← h]
    exact Radix.digits_value byteDigit b
  -- the upper half of the range stands for the negative numbers
  obtain ⟨n, hn, h₁, h₂⟩ :
      ∃ n : ℤ, (n % 2 ^ 64).toNat = intFromBytes b ∧ -2 ^ 63 ≤ n ∧ n < 2 ^ 63 := by
    norm_num at hlt
    by_cases hhalf : intFromBytes b < 2 ^ 63
    · exact ⟨intFromBytes b, by omega, by omega, by omega⟩
    · exact ⟨intFromBytes b - 2 ^ 64, by omega, by omega, by omega⟩
  exact ⟨n, packI64_eq_ok_iff.mpr ⟨h₁, h₂, by rw [hn, hdigits]⟩⟩

/-- Unpacking succeeds on packed numbers only. -/
theorem packI64_of_unpackI64 {n : ℤ} {b : Bytes} (h : unpackI64 b = .ok n) :
    packI64 n = .ok b := by
  have hlen : b.length = 8 := by
    unfold unpackI64 raiseIf at h
    by_contra hne
    rw [if_pos hne] at h
    cases h
  obtain ⟨m, hm⟩ := exists_packI64 hlen
  rwa [Except.ok.inj (h.symm.trans (unpackI64_of_packI64 hm))]

/-! ### Binary digit strings -/

/-- The characters `'0'` and `'1'` as digits of the base 2. -/
def bitDigit : Bool ≃ Fin 2 := finTwoEquiv.symm

/-- `bin(n)[2:]`. -/
def bin (n : ℕ) : List Bool :=
  -- `bin(0)` is `'0b0'`, one digit; other numerals have no leading zero
  if n = 0 then [false] else n.bits.reverse

/-- `s.zfill(w)` of a digit string. -/
def zfill (w : ℕ) (s : List Bool) : List Bool :=
  -- a string longer than the width is not cut
  List.replicate (w - s.length) false ++ s

/-- `int(s, 2)` of a digit string. -/
def intBase2 (s : List Bool) : Except PyExc ℕ := do
  raiseIf (s = []) .valueError [.foreign "invalid literal for int() with base 2: ''"]
  return Radix.value bitDigit s

theorem intBase2_of_ne_nil {s : List Bool} (h : s ≠ []) :
    intBase2 s = .ok (Radix.value bitDigit s) := by
  unfold intBase2
  rw [raiseIf_neg h]
  rfl

theorem value_reverse_bits (n : ℕ) : Radix.value bitDigit n.bits.reverse = n := by
  induction n using Nat.binaryRec' with
  | zero => rfl
  | bit d n hd ih =>
    -- the lowest bit is the last digit
    rw [Nat.bits_append_bit n d hd, List.reverse_cons, Radix.value_concat, ih, Nat.bit_val]
    cases d <;> simp [bitDigit, finTwoEquiv, Nat.mul_comm]

theorem value_replicate_false (k : ℕ) : Radix.value bitDigit (List.replicate k false) = 0 := by
  induction k with
  | zero => rfl
  | succ k ih =>
    rw [List.replicate_succ', Radix.value_concat, ih]
    rfl

/-- Padding a binary numeral to a width it fits in gives its fixed-width digits. -/
theorem zfill_bin {w n : ℕ} (hw : 0 < w) (h : n < 2 ^ w) :
    zfill w (bin n) = Radix.digits bitDigit w n := by
  have hlen : (bin n).length ≤ w := by
    unfold bin
    split
    · exact hw
    · rw [List.length_reverse, Nat.size_eq_bits_len]
      exact Nat.size_le.mpr h
  have hval : Radix.value bitDigit (bin n) = n := by
    unfold bin
    split
    · next h0 => rw [h0]; rfl
    · exact value_reverse_bits n
  refine (Radix.eq_digits_iff bitDigit h).mpr ⟨?_, ?_⟩
  · rw [zfill, List.length_append, List.length_replicate]
    omega
  · rw [zfill, Radix.value_append, value_replicate_false, hval, Nat.zero_mul, Nat.zero_add]

/-! ### Strings -/

/-- `c.isspace()`: the 29 blank code points of Unicode. -/
def CodePoint.isSpace (c : CodePoint) : Bool :=
  (0x9 ≤ c.val && c.val ≤ 0xD) || (0x1C ≤ c.val && c.val ≤ 0x20) || c.val == 0x85 ||
    c.val == 0xA0 || c.val == 0x1680 || (0x2000 ≤ c.val && c.val ≤ 0x200A) ||
    c.val == 0x2028 || c.val == 0x2029 || c.val == 0x202F || c.val == 0x205F || c.val == 0x3000

/-- The space character. -/
def CodePoint.space : CodePoint := 0x20

/-- `s.split()`. -/
def PyStr.split (s : PyStr) : List PyStr := Text.fields CodePoint.isSpace s

/-- `" ".join(ws)`. -/
def PyStr.joinSpace (ws : List PyStr) : PyStr := Text.join CodePoint.space ws

/-- `s.strip()`. -/
def PyStr.strip (s : PyStr) : PyStr := Text.strip CodePoint.isSpace s

/-- The first code points of the 66 runs of ten decimal digits. -/
def decimalZeros : List ℕ := [
  0x30, 0x660, 0x6F0, 0x7C0, 0x966, 0x9E6, 0xA66, 0xAE6, 0xB66, 0xBE6, 0xC66, 0xCE6, 0xD66, 0xDE6,
  0xE50, 0xED0, 0xF20, 0x1040, 0x1090, 0x17E0, 0x1810, 0x1946, 0x19D0, 0x1A80, 0x1A90, 0x1B50,
  0x1BB0, 0x1C40, 0x1C50, 0xA620, 0xA8D0, 0xA900, 0xA9D0, 0xA9F0, 0xAA50, 0xABF0, 0xFF10, 0x104A0,
  0x10D30, 0x11066, 0x110F0, 0x11136, 0x111D0, 0x112F0, 0x11450, 0x114D0, 0x11650, 0x116C0,
  0x11730, 0x118E0, 0x11950, 0x11C50, 0x11D50, 0x11DA0, 0x16A60, 0x16AC0, 0x16B50, 0x1D7CE,
  0x1D7D8, 0x1D7E2, 0x1D7EC, 0x1D7F6, 0x1E140, 0x1E2F0, 0x1E950, 0x1FBF0]

/-- The runs of digits that are no decimals: superscripts, circled digits and their like. -/
def otherDigits : List (ℕ × ℕ) := [
  (0xB2, 0xB3), (0xB9, 0xB9), (0x1369, 0x1371), (0x19DA, 0x19DA), (0x2070, 0x2070),
  (0x2074, 0x2079), (0x2080, 0x2089), (0x2460, 0x2468), (0x2474, 0x247C), (0x2488, 0x2490),
  (0x24EA, 0x24EA), (0x24F5, 0x24FD), (0x24FF, 0x24FF), (0x2776, 0x277E), (0x2780, 0x2788),
  (0x278A, 0x2792), (0x10A40, 0x10A43), (0x10E60, 0x10E68), (0x11052, 0x1105A),
  (0x1F100, 0x1F10A)]

/-- The value of a decimal digit. -/
def CodePoint.decimal (c : CodePoint) : Option ℕ :=
  (decimalZeros.find? fun z => z ≤ c.val && c.val ≤ z + 9).map (c.val - ·)

/-- `s.isdigit()`. -/
def PyStr.isdigit (s : PyStr) : Bool :=
  s != [] && s.all fun c =>
    c.decimal.isSome || otherDigits.any fun r => r.1 ≤ c.val && c.val ≤ r.2

/-- `int(s)` of a string of digits; digits that are no decimals are refused, and so are more than
4300 decimals. -/
def PyStr.toInt (s : PyStr) : Except PyExc ℤ := do
  let decimals := s.takeWhile fun c => c.decimal.isSome
  -- the interpreter counts the digits it can convert before it meets one it cannot
  raiseIf (4300 < decimals.length) .valueError
    [.foreign "Exceeds the limit (4300 digits) for integer string conversion"]
  raiseIf (decimals.length < s.length) .valueError
    [.lit "invalid literal for int() with base 10: ", .repr s]
  return decimals.foldl (fun n c => 10 * n + c.decimal.getD 0) 0

/-- The number that a string of decimals spells. -/
def PyStr.decimalValue (s : PyStr) : ℕ :=
  s.foldl (fun n c => 10 * n + c.decimal.getD 0) 0

/-- The digit strings that `int` converts. -/
def PyStr.Convertible (s : PyStr) : Prop :=
  s.length ≤ 4300 ∧ ∀ c ∈ s, c.decimal.isSome = true

theorem PyStr.toInt_of_convertible {s : PyStr} (h : s.Convertible) :
    s.toInt = .ok (s.decimalValue : ℤ) := by
  have hall : (s.takeWhile fun c => c.decimal.isSome) = s := List.takeWhile_eq_self_iff.mpr h.2
  have hcast : s.foldl (fun (n : ℤ) c => 10 * n + (c.decimal.getD 0 : ℕ)) 0
      = (s.decimalValue : ℤ) :=
    List.foldl_hom (Nat.cast : ℕ → ℤ) fun n c => by push_cast; rfl
  unfold PyStr.toInt
  simp only [hall]
  rw [raiseIf_neg (Nat.not_lt.mpr h.1), raiseIf_neg (lt_irrefl _), hcast]
  rfl

theorem PyStr.toInt_of_not_convertible {s : PyStr} (h : ¬ s.Convertible) :
    ∃ e, s.toInt = .error e ∧ e.type = .valueError := by
  unfold PyStr.toInt
  dsimp only
  by_cases hmany : 4300 < (s.takeWhile fun c => c.decimal.isSome).length
  · exact ⟨_, by rw [raiseIf_pos hmany]; rfl, rfl⟩
  · have hless : (s.takeWhile fun c => c.decimal.isSome).length < s.length := by
      refine lt_of_le_of_ne ( List.takeWhile_prefix _).length_le ?_
      intro hlen
      -- otherwise all of it would be decimals, and few enough
      have hall := ( List.takeWhile_prefix fun c : CodePoint => c.decimal.isSome).eq_of_length hlen
      exact h ⟨hlen ▸ Nat.not_lt.mp hmany, List.takeWhile_eq_self_iff.mp hall⟩
    exact ⟨_, by rw [raiseIf_neg hmany, raiseIf_pos hless]; rfl, rfl⟩

/-- Surrogate code points have no UTF-8 encoding. -/
def CodePoint.isSurrogate (c : CodePoint) : Bool :=
  0xD800 ≤ c.val && c.val ≤ 0xDFFF

/-- `s.encode("utf-8")`. -/
def PyStr.encodeUtf8 (s : PyStr) : Except PyExc Bytes := do
  raiseIf (s.any CodePoint.isSurrogate) .unicodeEncodeError [.foreign "surrogates not allowed"]
  return s.flatMap fun c => String.utf8EncodeChar (Char.ofNat c.val)

/-- `b.decode()` of ASCII bytes. -/
def decodeAscii (b : Bytes) : PyStr := b.map fun x => Fin.ofNat 0x110000 x.toNat

theorem PyStr.encodeUtf8_eq_ok_iff {s : PyStr} {b : Bytes} :
    s.encodeUtf8 = .ok b ↔ (∀ c ∈ s, c.isSurrogate = false) ∧
      (s.flatMap fun c => String.utf8EncodeChar (Char.ofNat c.val)) = b := by
  have hany : (∀ c ∈ s, c.isSurrogate = false) ↔ ¬ s.any CodePoint.isSurrogate = true := by
    simp
  rw [hany]
  unfold PyStr.encodeUtf8 raiseIf
  split
  · next h => exact iff_of_false (fun h' => by cases h') fun h' => h'.1 h
  · next h => exact ⟨fun h' => ⟨h, Except.ok.inj h'⟩, fun h' => congrArg Except.ok h'.2⟩

/-- A nonempty string has a nonempty encoding. -/
theorem PyStr.encodeUtf8_ne_nil {s : PyStr} {b : Bytes} (hs : s ≠ [])
    (h : s.encodeUtf8 = .ok b) : b ≠ [] := by
  obtain ⟨-, rfl⟩ := encodeUtf8_eq_ok_iff.mp h
  cases s with
  | nil => exact absurd rfl hs
  | cons c s =>
    rw [List.flatMap_cons]
    exact List.append_ne_nil_of_left_ne_nil String.utf8EncodeChar_ne_nil _

/-- A code point that is no surrogate is a character. -/
theorem CodePoint.toNat_ofNat {c : CodePoint} (h : c.isSurrogate = false) :
    (Char.ofNat c.val).toNat = c.val := by
  unfold CodePoint.isSurrogate at h
  simp only [Bool.and_eq_false_iff, decide_eq_false_iff_not] at h
  have hlt := c.isLt
  have hvalid : c.val.isValidChar := by
    unfold Nat.isValidChar
    omega
  unfold Char.ofNat
  rw [dif_pos hvalid]
  rfl

/-- **UTF-8 is lossless.** Strings with one encoding are equal. -/
theorem PyStr.encodeUtf8_inj {s t : PyStr} {b : Bytes} (hs : s.encodeUtf8 = .ok b)
    (ht : t.encodeUtf8 = .ok b) : s = t := by
  obtain ⟨hs, hsb⟩ := encodeUtf8_eq_ok_iff.mp hs
  obtain ⟨ht, htb⟩ := encodeUtf8_eq_ok_iff.mp ht
  -- the characters are determined by the bytes, and the code points by the characters
  have hchars : (s.map fun c => Char.ofNat c.val) = t.map fun c => Char.ofNat c.val := by
    refine String.ofList_injective (String.toByteArray_inj.mp ?_)
    rw [String.toByteArray_ofList, String.toByteArray_ofList, List.utf8Encode, List.utf8Encode,
      List.flatMap_map, List.flatMap_map, hsb, htb]
  have hback : ∀ {l : PyStr}, (∀ c ∈ l, c.isSurrogate = false) →
      (l.map fun c => Char.ofNat c.val).map Char.toNat = l.map Fin.val := by
    intro l hl
    rw [List.map_map]
    exact List.map_congr_left fun c hc => CodePoint.toNat_ofNat (hl c hc)
  refine List.map_injective_iff.mpr Fin.val_injective ?_
  rw [← hback hs, ← hback ht, hchars]

end KeystoneCrypto
