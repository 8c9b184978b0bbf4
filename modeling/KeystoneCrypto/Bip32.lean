import KeystoneCrypto.Primitives
import KeystoneCrypto.Lib.Walk

/-!
# Private derivation as BIP-32 defines it

A node is a secret scalar with a chain code. A component `(index, hardened)` leads from a node to
its child: the left half `IL` of one HMAC is added to the scalar modulo the group order, the right
half becomes the chain code. The step is refused if the index has more than 31 bits, if `IL` is not
below the group order, or if the sum is zero. Derivation along a path is a walk of such steps.

What a step can do is said once, guards included (`child_cases`), and everything else about steps is
read off there. Nodes cannot hold an invalid scalar, so a walk never leaves the valid keys; and since
every step adds, the scalar at the end is the sum of the scalar at the start and all the `IL` on the
way (`scalar_of_derive`, by induction on the path). The message of a step ends with the four bytes of
the child number, which determine the component (`message_inj`).
-/

namespace KeystoneCrypto

namespace Bip32

/-- An extended private key without its metadata. -/
@[ext]
structure Node where
  scalar : Scalar
  chain : Bytes

/-- Why a step is refused. -/
inductive Reject
  | index
  | left
  | zero
  deriving DecidableEq

def ser32 (i : ℕ) : Bytes := Radix.digits byteDigit 4 i

def ser256 (k : ℕ) : Bytes := Radix.digits byteDigit 32 k

/-- The index of a component as BIP-32 numbers children. -/
def childNumber (c : ℤ × Bool) : ℤ := if c.2 then c.1 + 2 ^ 31 else c.1

/-- An index of 31 bits. -/
def InRange (c : ℤ × Bool) : Prop := 0 ≤ c.1 ∧ c.1 ≤ 2 ^ 31 - 1

instance (c : ℤ × Bool) : Decidable (InRange c) := inferInstanceAs (Decidable (_ ∧ _))

/-- Different components have different child numbers; hardened ones start at `2 ^ 31`. -/
theorem childNumber_inj {c c' : ℤ × Bool} (hc : InRange c) (hc' : InRange c')
    (h : childNumber c = childNumber c') : c = c' := by
  obtain ⟨i, hardened⟩ := c
  obtain ⟨i', hardened'⟩ := c'
  unfold InRange at hc hc'
  unfold childNumber at h
  -- a hardened number is at least `2 ^ 31`, and the other ones are below
  cases hardened with
  | false =>
    cases hardened' with
    | false =>
      simp only [Bool.false_eq_true, if_false] at h
      rw [h]
    | true =>
      simp only [Bool.false_eq_true, if_false, if_true] at h
      omega
  | true =>
    cases hardened' with
    | false =>
      simp only [Bool.false_eq_true, if_false, if_true] at h
      omega
    | true =>
      simp only [if_true] at h
      rw [show i = i' by omega]

/-- Four bytes determine the component. -/
theorem ser32_childNumber_inj {c c' : ℤ × Bool} (hc : InRange c) (hc' : InRange c')
    (h : ser32 (childNumber c).toNat = ser32 (childNumber c').toNat) : c = c' := by
  have hbound : ∀ c : ℤ × Bool, InRange c → 0 ≤ childNumber c ∧ childNumber c < 2 ^ 32 := by
    intro c hr
    unfold InRange at hr
    unfold childNumber
    split <;> omega
  -- numbers below `2 ^ 32` can be read back from four digits
  obtain ⟨h₀, h₁⟩ := hbound c hc
  obtain ⟨h₀', h₁'⟩ := hbound c' hc'
  have hnat : (childNumber c).toNat = (childNumber c').toNat :=
    Radix.digits_inj byteDigit (by norm_num; omega) (by norm_num; omega) h
  exact childNumber_inj hc hc' (by omega)

section Child

variable (P : Primitives) (n : Node) (c : ℤ × Bool)

/-- The HMAC message of a step. -/
def message : Bytes :=
  if c.2 then [0] ++ ser256 n.scalar ++ ser32 (childNumber c).toNat
  else P.compressedPublicKey n.scalar ++ ser32 (childNumber c).toNat

/-- Whichever layout a message has, it is 33 bytes in front of the child number. -/
theorem exists_message_eq : ∃ front, front.length = 33 ∧
    message P n c = front ++ ser32 (childNumber c).toNat := by
  unfold message
  split
  · exact ⟨_, by simp [ser256], rfl⟩
  · exact ⟨_, P.compressedPublicKey_length n.scalar, rfl⟩

/-- The message of every step has 37 bytes. -/
theorem length_message : (message P n c).length = 37 := by
  obtain ⟨front, hfront, h⟩ := exists_message_eq P n c
  rw [h, List.length_append, hfront, ser32, Radix.length_digits]

/-- **Messages determine the component**, even those of different nodes. -/
theorem message_inj {n' : Node} {c' : ℤ × Bool} (hc : InRange c) (hc' : InRange c')
    (h : message P n c = message P n' c') : c = c' := by
  obtain ⟨front, hfront, hm⟩ := exists_message_eq P n c
  obtain ⟨front', hfront', hm'⟩ := exists_message_eq P n' c'
  rw [hm, hm'] at h
  -- both fronts have 33 bytes, so the cut is at the same place
  exact ser32_childNumber_inj hc hc' (List.append_inj h (hfront.trans hfront'.symm)).2

/-- `IL`, as a number. -/
def left : ℕ := intFromBytes ((P.hmacSha512 n.chain (message P n c)).take 32)

/-- `IR`. -/
def right : Bytes := (P.hmacSha512 n.chain (message P n c)).drop 32

/-- The child of a node. -/
def child : Except Reject Node :=
  if ¬ InRange c then .error .index
  else if groupOrder ≤ left P n c then .error .left
  else if h : (left P n c + n.scalar) % groupOrder = 0 then .error .zero
  else .ok ⟨⟨(left P n c + n.scalar) % groupOrder,
    Nat.pos_of_ne_zero h, Nat.mod_lt _ (by decide)⟩, right P n c⟩

/-- **What a step can do**, guards included. -/
theorem child_cases :
    (¬ InRange c ∧ child P n c = .error .index) ∨
    (InRange c ∧ groupOrder ≤ left P n c ∧ child P n c = .error .left) ∨
    (InRange c ∧ left P n c < groupOrder ∧ (left P n c + n.scalar) % groupOrder = 0 ∧
      child P n c = .error .zero) ∨
    (InRange c ∧ left P n c < groupOrder ∧ (left P n c + n.scalar) % groupOrder ≠ 0 ∧
      ∃ k : Scalar, (k : ℕ) = (left P n c + n.scalar) % groupOrder ∧
        child P n c = .ok ⟨k, right P n c⟩) := by
  unfold child
  -- the guards in the order in which they are checked
  by_cases hr : InRange c
  · rw [if_neg (not_not.mpr hr)]
    by_cases hl : groupOrder ≤ left P n c
    · rw [if_pos hl]
      exact .inr (.inl ⟨hr, hl, rfl⟩)
    · rw [if_neg hl]
      by_cases hz : (left P n c + n.scalar) % groupOrder = 0
      · rw [dif_pos hz]
        exact .inr (.inr (.inl ⟨hr, Nat.lt_of_not_le hl, hz, rfl⟩))
      · rw [dif_neg hz]
        exact .inr (.inr (.inr ⟨hr, Nat.lt_of_not_le hl, hz, _, rfl, rfl⟩))
  · rw [if_pos hr]
    exact .inl ⟨hr, rfl⟩

theorem exists_child_eq_error_iff :
    (∃ r, child P n c = .error r) ↔ ¬ InRange c ∨ groupOrder ≤ left P n c ∨
      (left P n c + n.scalar) % groupOrder = 0 := by
  rcases child_cases P n c with ⟨hr, h⟩ | ⟨hr, hl, h⟩ | ⟨hr, -, hz, h⟩ | ⟨hr, hl, hz, k, -, h⟩
  · exact ⟨fun _ => .inl hr, fun _ => ⟨_, h⟩⟩
  · exact ⟨fun _ => .inr (.inl hl), fun _ => ⟨_, h⟩⟩
  · exact ⟨fun _ => .inr (.inr hz), fun _ => ⟨_, h⟩⟩
  · refine ⟨?_, ?_⟩
    · rintro ⟨r, hr'⟩
      rw [h] at hr'
      cases hr'
    · rintro (h' | h' | h')
      exacts [absurd hr h', absurd hl (Nat.not_lt.mpr h'), absurd h' hz]

theorem scalar_of_child {m : Node} (h : child P n c = .ok m) :
    (m.scalar : ℕ) = (left P n c + n.scalar) % groupOrder := by
  -- only the last case returns a node
  rcases child_cases P n c with ⟨-, h'⟩ | ⟨-, -, h'⟩ | ⟨-, -, -, h'⟩ | ⟨-, -, -, k, hk, h'⟩
  · rw [h] at h'
    cases h'
  · rw [h] at h'
    cases h'
  · rw [h] at h'
    cases h'
  · rw [h, Except.ok.injEq] at h'
    rw [h', hk]

end Child

/-! ### Walks -/

/-- The node at the end of a path. -/
def derive (P : Primitives) (n : Node) (path : List (ℤ × Bool)) : Except Reject Node :=
  Walk.walk (child P) n path

/-- The `IL` of the steps of a path, as far as it can be walked. -/
def lefts (P : Primitives) : Node → List (ℤ × Bool) → List ℕ
  | _, [] => []
  | n, c :: path =>
    left P n c :: match child P n c with
      | .ok m => lefts P m path
      | .error _ => []

/-- **The scalar at the end** is the scalar at the start plus all the `IL` on the way. -/
theorem scalar_of_derive {P : Primitives} {n m : Node} {path : List (ℤ × Bool)}
    (h : derive P n path = .ok m) :
    (m.scalar : ℕ) = (n.scalar + (lefts P n path).sum) % groupOrder := by
  induction path generalizing n with
  | nil =>
    rw [← Except.ok.inj h]
    exact (Nat.mod_eq_of_lt n.scalar.2.2).symm
  | cons c path ih =>
    unfold derive at h
    rw [Walk.walk_cons] at h
    cases hc : child P n c with
    | error r =>
      rw [hc] at h
      cases h
    | ok n' =>
      -- the step adds its `IL`, the rest adds the others, and residues may be taken at the end
      rw [hc] at h
      have hn' := scalar_of_child P n c hc
      have htail := ih h
      unfold lefts
      rw [hc, htail, hn', List.sum_cons, Nat.mod_add_mod]
      congr 1
      ring

/-- The number the left half of the master HMAC spells. -/
def masterLeft (P : Primitives) (seed : Bytes) : ℕ :=
  intFromBytes ((P.hmacSha512 (Bytes.ofString "Bitcoin seed") seed).take 32)

/-- BIP-32 admits a seed if its master scalar is valid. -/
def ValidSeed (P : Primitives) (seed : Bytes) : Prop :=
  0 < masterLeft P seed ∧ masterLeft P seed < groupOrder

instance (P : Primitives) (seed : Bytes) : Decidable (ValidSeed P seed) :=
  inferInstanceAs (Decidable (_ ∧ _))

/-- The master node of a seed. -/
def master (P : Primitives) (seed : Bytes) (h : ValidSeed P seed) : Node :=
  ⟨⟨masterLeft P seed, h⟩, (P.hmacSha512 (Bytes.ofString "Bitcoin seed") seed).drop 32⟩

@[simp] theorem master_scalar (P : Primitives) (seed : Bytes) (h : ValidSeed P seed) :
    ((master P seed h).scalar : ℕ) = masterLeft P seed := rfl

end Bip32

end KeystoneCrypto
