import KeystoneCrypto.Lib.Radix
import Mathlib.Data.List.TakeWhile
import Mathlib.Data.Nat.Digits.Lemmas

/-!
# Shortest numerals and changes of base

`Radix.numeral e n` is the shortest digit string of `n`, which is empty for zero and starts with a
nonzero digit otherwise. It is what repeated division by the base yields (`numeral_of_pos`), and
every string without a leading zero is the numeral of its value (`numeral_value`).

A string that does have leading zeros is not determined by its value. `Radix.recode` writes a string
in another base such that nothing is lost: the leading zeros are kept one by one, and what is behind
them is written as a numeral. Recoding and recoding back is the identity (`recode_recode`), for any
two bases.
-/

namespace Radix

variable {D D' : Type*} {b b' : ℕ} [NeZero b] [NeZero b'] (e : D ≃ Fin b) (e' : D' ≃ Fin b')

/-- The shortest string of digits of `n`. -/
def numeral (n : ℕ) : List D := digits e (Nat.digits b n).length n

/-- The digit zero. -/
def zero : D := e.symm (Fin.ofNat b 0)

/-- A leading zero. -/
def isZero (d : D) : Bool := (e d : ℕ) == 0

theorem val_zero : (e (zero e) : ℕ) = 0 := by
  rw [zero, Equiv.apply_symm_apply, Fin.val_ofNat, Nat.zero_mod]

theorem isZero_eq_true_iff {d : D} : isZero e d = true ↔ d = zero e := by
  unfold isZero
  rw [beq_iff_eq]
  refine ⟨?_, ?_⟩
  · intro h
    exact e.injective (Fin.ext (h.trans (val_zero e).symm))
  · rintro rfl
    exact val_zero e

@[simp] theorem numeral_zero : numeral e 0 = [] := by
  rw [numeral, Nat.digits_zero, List.length_nil, digits_zero]

/-- A digit string whose first digit is not zero spells a number that needs all its digits. -/
theorem pow_le_value {d : D} (l : List D) (hd : d ≠ zero e) : b ^ l.length ≤ value e (d :: l) := by
  have happ := value_append e [d] l
  rw [value_singleton, List.singleton_append] at happ
  have hpos : 1 ≤ (e d : ℕ) := by
    refine Nat.one_le_iff_ne_zero.mpr ?_
    intro h0
    exact hd ((isZero_eq_true_iff e).mp (beq_iff_eq.mpr h0))
  calc b ^ l.length = 1 * b ^ l.length := (Nat.one_mul _).symm
    _ ≤ (e d : ℕ) * b ^ l.length := Nat.mul_le_mul_right _ hpos
    _ ≤ value e (d :: l) := happ ▸ Nat.le_add_right _ _

section Numeral

variable (hb : 1 < b)
include hb

/-- **Repeated division.** The last digit is the remainder, the others are the numeral of the
quotient. -/
theorem numeral_of_pos {n : ℕ} (hn : 0 < n) :
    numeral e n = numeral e (n / b) ++ [e.symm (Fin.ofNat b n)] := by
  rw [numeral, Nat.digits_def' hb hn, List.length_cons, digits_succ]
  rfl

theorem value_numeral (n : ℕ) : value e (numeral e n) = n :=
  value_digits_of_lt e (Nat.lt_base_pow_length_digits hb)

/-- **Numerals are the strings without a leading zero.** -/
theorem numeral_value {l : List D} (h : l.head? ≠ some (zero e)) : numeral e (value e l) = l := by
  have hlen : (Nat.digits b (value e l)).length = l.length := by
    cases l with
    | nil => rw [value_nil, Nat.digits_zero, List.length_nil, List.length_nil]
    | cons d l =>
      have hd : d ≠ zero e := by
        rintro rfl
        exact h rfl
      -- the value lies between two consecutive powers of the base
      have hge := pow_le_value e l hd
      have hlt := value_lt e (d :: l)
      rw [List.length_cons] at hlt ⊢
      have hpos : value e (d :: l) ≠ 0 :=
        (lt_of_lt_of_le (Nat.pow_pos (by omega)) hge).ne'
      rw [Nat.length_digits b _ hb hpos, Nat.log_eq_of_pow_le_of_lt_pow hge hlt]
  rw [numeral, hlen, digits_value]

/-- **The leading digits** of a number are the numeral of a quotient. -/
theorem numeral_eq_append {n k : ℕ} (h : b ^ k ≤ n) :
    numeral e n = numeral e (n / b ^ k) ++ digits e k n := by
  induction k generalizing n with
  | zero => rw [pow_zero, Nat.div_one, digits_zero, List.append_nil]
  | succ k ih =>
    have hb₀ : 0 < b := by omega
    have hn : 0 < n := lt_of_lt_of_le (Nat.pow_pos hb₀) h
    -- one digit is peeled off at the end, the others are those of the quotient by the base
    have hquot : b ^ k ≤ n / b := (Nat.le_div_iff_mul_le hb₀).mpr (by rwa [← pow_succ])
    rw [numeral_of_pos e hb hn, ih hquot, digits_succ, Nat.div_div_eq_div_mul, ← pow_succ',
      List.append_assoc]

/-- A numeral does not start with a zero. -/
theorem head_numeral_ne (n : ℕ) : (numeral e n).head? ≠ some (zero e) := by
  intro h
  cases hl : numeral e n with
  | nil =>
    rw [hl] at h
    cases h
  | cons d l =>
    rw [hl, List.head?_cons, Option.some.injEq] at h
    -- the rest would spell the same number with one digit less
    have hval := value_numeral e hb n
    have hlen : (d :: l).length = (Nat.digits b n).length := by
      rw [← hl, numeral, length_digits]
    have hsame : value e l = n := by
      rw [← hval, hl, ← List.singleton_append, value_append, value_singleton, h, val_zero,
        Nat.zero_mul, Nat.zero_add]
    have hlt := value_lt e l
    rw [hsame] at hlt
    have hle := (Nat.digits_length_le_iff hb n).mpr hlt
    rw [← hlen, List.length_cons] at hle
    omega

end Numeral

/-! ### Leading zeros -/

/-- The number of leading zeros. -/
def leading (l : List D) : ℕ := (l.takeWhile (isZero e)).length

theorem takeWhile_isZero (l : List D) :
    l.takeWhile (isZero e) = List.replicate (leading e l) (zero e) :=
  List.eq_replicate_iff.mpr
    ⟨rfl, fun _ hd => (isZero_eq_true_iff e).mp (List.mem_takeWhile_imp hd)⟩

theorem value_replicate_zero (k : ℕ) (l : List D) :
    value e (List.replicate k (zero e) ++ l) = value e l := by
  induction k with
  | zero => rfl
  | succ k ih =>
    rw [List.replicate_succ, List.cons_append, ← List.singleton_append, value_append,
      value_singleton, val_zero, Nat.zero_mul, Nat.zero_add, ih]

/-- Only strings of zeros spell zero. -/
theorem value_eq_zero_iff {l : List D} : value e l = 0 ↔ ∀ d ∈ l, d = zero e := by
  induction l with
  | nil => simp
  | cons d l ih =>
    rw [value_cons, Nat.add_eq_zero_iff, ih, List.forall_mem_cons]
    refine and_congr_left' ?_
    rw [Nat.mul_eq_zero, or_iff_left (Nat.pow_pos (Nat.pos_of_neZero b)).ne', ← isZero_eq_true_iff,
      isZero, beq_iff_eq]

/-- Zeros in front of a string without leading zeros are its leading zeros. -/
theorem leading_replicate_append (k : ℕ) {l : List D} (h : l.head? ≠ some (zero e)) :
    leading e (List.replicate k (zero e) ++ l) = k := by
  have hl : l.takeWhile (isZero e) = [] := by
    cases l with
    | nil => rfl
    | cons d l =>
      refine List.takeWhile_cons_of_neg ?_
      intro hd
      exact h (congrArg some ((isZero_eq_true_iff e).mp hd))
  have hall : ∀ d ∈ List.replicate k (zero e), isZero e d = true := by
    intro d hd
    exact (isZero_eq_true_iff e).mpr (List.eq_of_mem_replicate hd)
  rw [leading, List.takeWhile_append_of_pos hall, hl, List.append_nil, List.length_replicate]

/-- A string written in another base, leading zeros and all. -/
def recode (l : List D) : List D' :=
  List.replicate (leading e l) (zero e') ++ numeral e' (value e l)

/-- **Changing the base and changing back** gives the string back. -/
theorem recode_recode (hb : 1 < b) (hb' : 1 < b') (l : List D) :
    recode e' e (recode e e' l) = l := by
  have hhead : (l.dropWhile (isZero e)).head? ≠ some (zero e) := by
    intro h
    have hzero := List.head?_dropWhile_not (isZero e) l
    rw [h] at hzero
    exact Bool.false_ne_true (hzero.symm.trans ((isZero_eq_true_iff e).mpr rfl))
  -- the leading zeros carry no value, and what is behind them is a numeral
  have hsplit : List.replicate (leading e l) (zero e) ++ l.dropWhile (isZero e) = l := by
    rw [← takeWhile_isZero, List.takeWhile_append_dropWhile]
  have hvalue : value e l = value e (l.dropWhile (isZero e)) := by
    rw [← value_replicate_zero e (leading e l) (l.dropWhile (isZero e)), hsplit]
  unfold recode
  rw [leading_replicate_append e' _ (head_numeral_ne e' hb' _), value_replicate_zero,
    value_numeral e' hb', hvalue, numeral_value e hb hhead, hsplit]

end Radix
