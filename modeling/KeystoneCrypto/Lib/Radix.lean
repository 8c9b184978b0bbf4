import Mathlib.Tactic
import Mathlib.Data.Nat.Size
import Mathlib.Logic.Equiv.Defs

/-!
# Positional notation over an arbitrary digit type

A digit type for the base `b` is any type `D` with an equivalence `e : D ≃ Fin b`. Over it

* `Radix.value e l` is the number the digit string `l` spells, most significant digit first;
* `Radix.digits e w n` is the string of the `w` low digits of `n`, most significant first.

On strings of one length the two maps are inverse to each other (`digits_value`,
`value_digits_of_lt`), so a fixed-width string and its number carry the same information
(`value_inj`). This is what makes two regroupings of one bit string, say into bytes and into 11-bit
words, comparable: both are read through their value.

The last section cuts a string into consecutive slices of one length, the inverse of flattening
a list of equally long blocks.
-/

namespace Radix

variable {D : Type*} {b : ℕ} (e : D ≃ Fin b)

/-- The number spelled by a digit string, most significant digit first. -/
def value (l : List D) : ℕ :=
  l.foldl (fun acc d => acc * b + (e d : ℕ)) 0

/-- The `w` low digits of `n`, most significant first. -/
def digits [NeZero b] : ℕ → ℕ → List D
  | 0, _ => []
  | w + 1, n => digits w (n / b) ++ [e.symm (Fin.ofNat b n)]

/-! ### The value of a string -/

@[simp] theorem value_nil : value e [] = 0 := rfl

theorem value_concat (l : List D) (d : D) : value e (l ++ [d]) = value e l * b + (e d : ℕ) := by
  unfold value
  rw [List.foldl_append, List.foldl_cons, List.foldl_nil]

theorem value_append (l₁ l₂ : List D) :
    value e (l₁ ++ l₂) = value e l₁ * b ^ l₂.length + value e l₂ := by
  induction l₂ using List.reverseRecOn with
  | nil => simp
  | append_singleton l d ih =>
    rw [← List.append_assoc, value_concat, value_concat, ih, List.length_append,
      List.length_singleton, pow_succ]
    ring

theorem value_singleton (d : D) : value e [d] = (e d : ℕ) := by
  rw [← List.nil_append [d], value_concat, value_nil, Nat.zero_mul, Nat.zero_add]

theorem value_cons (d : D) (l : List D) :
    value e (d :: l) = (e d : ℕ) * b ^ l.length + value e l := by
  rw [← List.singleton_append, value_append, value_singleton]

/-- A string of `n` digits spells a number below `b ^ n`. -/
theorem value_lt (l : List D) : value e l < b ^ l.length := by
  induction l using List.reverseRecOn with
  | nil => simp
  | append_singleton l d ih =>
    -- the string before the last digit spells at most `b ^ l.length - 1`
    rw [value_concat, List.length_append, List.length_singleton, pow_succ]
    have hd := (e d).isLt
    have hmul : (value e l + 1) * b ≤ b ^ l.length * b := Nat.mul_le_mul_right b ih
    rw [Nat.add_mul] at hmul
    omega

/-! ### The digits of a number -/

section Digits

variable [NeZero b]

@[simp] theorem digits_zero (n : ℕ) : digits e 0 n = [] := rfl

theorem digits_succ (w n : ℕ) :
    digits e (w + 1) n = digits e w (n / b) ++ [e.symm (Fin.ofNat b n)] := rfl

@[simp] theorem length_digits (w n : ℕ) : (digits e w n).length = w := by
  induction w generalizing n with
  | zero => rfl
  | succ w ih => rw [digits_succ, List.length_append, ih, List.length_singleton]

theorem value_digits (w n : ℕ) : value e (digits e w n) = n % b ^ w := by
  induction w generalizing n with
  | zero => simp [Nat.mod_one]
  | succ w ih =>
    rw [digits_succ, value_concat, ih, Equiv.apply_symm_apply, Fin.val_ofNat, pow_succ',
      Nat.mod_mul]
    ring

theorem value_digits_of_lt {w n : ℕ} (h : n < b ^ w) : value e (digits e w n) = n := by
  rw [value_digits, Nat.mod_eq_of_lt h]

theorem digits_value (l : List D) : digits e l.length (value e l) = l := by
  induction l using List.reverseRecOn with
  | nil => rfl
  | append_singleton l d ih =>
    -- dividing by the base takes the last digit off, the remainder is that digit
    have hb : 0 < b := Nat.pos_of_neZero b
    have hdiv : (value e l * b + (e d : ℕ)) / b = value e l := by
      rw [Nat.mul_comm, Nat.mul_add_div hb, Nat.div_eq_of_lt (e d).isLt, Nat.add_zero]
    have hmod : Fin.ofNat b (value e l * b + (e d : ℕ)) = e d := by
      refine Fin.ext ?_
      rw [Fin.val_ofNat, Nat.mul_comm, Nat.mul_add_mod, Nat.mod_eq_of_lt (e d).isLt]
    rw [List.length_append, List.length_singleton, digits_succ, value_concat, hdiv, ih, hmod,
      Equiv.symm_apply_apply]

/-- Two strings of one length with the same value are equal. -/
theorem value_inj {l₁ l₂ : List D} (hlen : l₁.length = l₂.length)
    (h : value e l₁ = value e l₂) : l₁ = l₂ := by
  rw [← digits_value e l₁, ← digits_value e l₂, hlen, h]

/-- A string is the digit string of its value, at any width it has. -/
theorem eq_digits_iff {l : List D} {w n : ℕ} (hn : n < b ^ w) :
    l = digits e w n ↔ l.length = w ∧ value e l = n := by
  refine ⟨?_, ?_⟩
  · rintro rfl
    exact ⟨length_digits e w n, value_digits_of_lt e hn⟩
  · rintro ⟨rfl, rfl⟩
    exact (digits_value e l).symm

theorem digits_inj {w n m : ℕ} (hn : n < b ^ w) (hm : m < b ^ w)
    (h : digits e w n = digits e w m) : n = m := by
  rw [← value_digits_of_lt e hn, ← value_digits_of_lt e hm, h]

/-- The high digits are those of the quotient. -/
theorem digits_add (v w n : ℕ) : digits e (v + w) n = digits e v (n / b ^ w) ++ digits e w n := by
  induction w generalizing n with
  | zero => simp
  | succ w ih =>
    rw [← Nat.add_assoc, digits_succ, digits_succ, ih, Nat.div_div_eq_div_mul, ← pow_succ',
      List.append_assoc]

end Digits

/-! ### Slices of one length -/

/-- The `i`-th slice of length `k`; a slice that runs past the end is cut short. -/
def slice {α : Type*} (k : ℕ) (l : List α) (i : ℕ) : List α :=
  (l.drop (k * i)).take k

/-- Cutting the concatenation of blocks of length `k` gives the blocks back. -/
theorem slices_flatten {α : Type*} {k : ℕ} (ls : List (List α)) (h : ∀ x ∈ ls, x.length = k) :
    (List.range ls.length).map (slice k ls.flatten) = ls := by
  induction ls with
  | nil => rfl
  | cons x ls ih =>
    have hx : x.length = k := h x List.mem_cons_self
    have htail := ih fun y hy => h y (List.mem_cons_of_mem x hy)
    rw [List.length_cons, List.range_succ_eq_map, List.map_cons, List.map_map, List.flatten_cons]
    -- the first slice is the first block, and the others are those of the rest, shifted by one
    congr 1
    · simp [slice, ← hx]
    · refine Eq.trans (List.map_congr_left fun i _ => ?_) htail
      have hdrop : k * (i + 1) = x.length + k * i := by rw [hx]; ring
      simp only [slice, Function.comp_apply, Nat.succ_eq_add_one]
      rw [hdrop, List.drop_append, List.drop_eq_nil_of_le (Nat.le_add_right _ _),
        Nat.add_sub_cancel_left, List.nil_append]

/-- Conversely a string of `m` whole slices is the concatenation of its slices. -/
theorem flatten_slices {α : Type*} {k m : ℕ} (l : List α) (h : l.length = k * m) :
    ((List.range m).map (slice k l)).flatten = l := by
  induction m generalizing l with
  | zero =>
    rw [Nat.mul_zero] at h
    simp [List.length_eq_zero_iff.mp h]
  | succ m ih =>
    have htail : (l.drop k).length = k * m := by rw [List.length_drop, h, Nat.mul_succ]; omega
    have hshift : slice k l ∘ Nat.succ = slice k (l.drop k) := by
      funext i
      simp only [slice, Function.comp_apply, List.drop_drop, Nat.mul_succ, Nat.add_comm]
    rw [List.range_succ_eq_map, List.map_cons, List.map_map, hshift, List.flatten_cons,
      ih _ htail]
    simp [slice]

/-! ### Counting -/

/-- **One remainder for each quotient.** Where the quotient prescribes the remainder, there are as
many numbers as quotients. -/
theorem countP_mod_eq {b : ℕ} (hb : 0 < b) (f : ℕ → ℕ) {m : ℕ} (hf : ∀ a < m, f a < b) :
    (List.range (m * b)).countP (fun n => n % b = f (n / b)) = m := by
  induction m with
  | zero => simp
  | succ m ih =>
    -- the numbers with the new quotient, by their remainders
    have hnew : ((List.range b).map (m * b + ·)).countP (fun n => n % b = f (n / b)) = 1 := by
      rw [List.countP_map]
      calc (List.range b).countP ((fun n => decide (n % b = f (n / b))) ∘ (m * b + ·))
          = (List.range b).countP (· == f m) := by
            refine List.countP_congr fun r hr => ?_
            have hlt := List.mem_range.mp hr
            have hdiv : (m * b + r) / b = m := by
              rw [Nat.add_comm, Nat.add_mul_div_right _ _ hb, Nat.div_eq_of_lt hlt, Nat.zero_add]
            simp [hdiv, Nat.mod_eq_of_lt hlt]
        _ = 1 := List.count_eq_one_of_mem List.nodup_range
            (List.mem_range.mpr (hf m (Nat.lt_succ_self m)))
    rw [Nat.succ_mul, List.range_add, List.countP_append,
      ih fun a ha => hf a (Nat.lt_succ_of_lt ha), hnew]

end Radix
