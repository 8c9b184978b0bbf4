import KeystoneCrypto.Bip32

/-!
# Ed25519 derivation as SLIP-0010 defines it

A node is a secret of 32 bytes with a chain code, and the secret may be any string. The master node
is one HMAC of the seed; a child is one HMAC of its parent, whose left half is the secret as it
comes. Nothing is added, so nothing has to be reduced. Only hardened components lead anywhere.
-/

namespace KeystoneCrypto

namespace Slip10

/-- A secret with its chain code. -/
@[ext]
structure Node where
  secret : Bytes
  chain : Bytes

/-- Why a step is refused. -/
inductive Reject
  | notHardened
  | index
  deriving DecidableEq

/-- The halves of an HMAC. -/
def Node.ofHmac (i : Bytes) : Node := ⟨i.take 32, i.drop 32⟩

/-- The master node of a seed. -/
def master (P : Primitives) (seed : Bytes) : Node :=
  .ofHmac (P.hmacSha512 (Bytes.ofString "ed25519 seed") seed)

/-- The HMAC message of a step. -/
def message (n : Node) (c : ℤ × Bool) : Bytes :=
  [0] ++ n.secret ++ Bip32.ser32 (Bip32.childNumber c).toNat

/-- The child of a node. -/
def child (P : Primitives) (n : Node) (c : ℤ × Bool) : Except Reject Node :=
  if c.2 = false then .error .notHardened
  else if ¬ Bip32.InRange c then .error .index
  else .ok (.ofHmac (P.hmacSha512 n.chain (message n c)))

/-- The secret at the end of a path. -/
def secretOf (P : Primitives) (seed : Bytes) (path : List (ℤ × Bool)) : Except Reject Bytes :=
  (Walk.walk (child P) (master P seed) path).map Node.secret

section Secret

variable {P : Primitives} {n m : Node} {c : ℤ × Bool} {seed secret : Bytes}
  {path : List (ℤ × Bool)}

theorem child_eq_ok_iff : child P n c = .ok m ↔ c.2 = true ∧ Bip32.InRange c ∧
    m = .ofHmac (P.hmacSha512 n.chain (message n c)) := by
  unfold child
  by_cases hc : c.2 = false
  · simp [hc]
  · by_cases hr : Bip32.InRange c <;> simp [hc, hr, @eq_comm _ m]

theorem secretOf_eq_ok_iff : secretOf P seed path = .ok secret ↔
    ∃ n, Walk.walk (child P) (master P seed) path = .ok n ∧ n.secret = secret := by
  unfold secretOf
  cases Walk.walk (child P) (master P seed) path <;> simp [Except.map]

/-- A path with a secret at its end is hardened throughout. -/
theorem forall_of_secretOf (h : secretOf P seed path = .ok secret) :
    ∀ c ∈ path, c.2 = true ∧ Bip32.InRange c := by
  obtain ⟨n, hwalk, -⟩ := secretOf_eq_ok_iff.mp h
  intro c hc
  obtain ⟨u, v, hstep⟩ := Walk.exists_step_of_walk hwalk c hc
  obtain ⟨hhard, hr, -⟩ := child_eq_ok_iff.mp hstep
  exact ⟨hhard, hr⟩

end Secret

end Slip10

end KeystoneCrypto
