import KeystoneCrypto.Derivation.Messages
import KeystoneCrypto.Lib.HashChain

/-!
# A derived key commits to its seed and its path

The chain code of a key is the right half of an HMAC over the chain code and a message of its
parent, and the message determines the parent and the component. So the chain code commits to the
whole derivation (`chainCode_binds`): two derivations that end in one chain code are the same
derivation, from one seed along one path, or two of the HMACs they computed on the way have
different inputs and one right half. In particular two seeds, or two paths of one seed, share no
extended key unless they exhibit such a pair.

The argument walks both derivations back from their ends and is that of any hash chain
(`HashChain.walk_binds`). Two things are to be shown of this one: the input of an HMAC gives away
the node and the component of the step (`hmacInput_inj`), and no step has the input of a root
(`hmacInput_ne_root`), so that paths of different lengths do not fit together.
-/

namespace KeystoneCrypto

/-- The inputs of the HMACs that `derive_from_seed(seed, path)` computes: key and message. -/
def HmacInput (P : Primitives) (seed : SecretBytes) (path : DerivationPath) (x : Bytes × Bytes) :
    Prop :=
  x = (Bytes.ofString "Bitcoin seed", seed.buf) ∨
    ∃ front c back parent data, path.indices = front ++ c :: back ∧
      deriveFromSeed P seed ⟨front⟩ = .ok parent ∧
      parent.childData P (Bip32.childNumber c) = .ok data ∧ x = (parent.chainCode.buf, data)

/-- The right half of the HMAC of a key and a message. -/
def rightHalf (P : Primitives) (x : Bytes × Bytes) : Bytes := (P.hmacSha512 x.1 x.2).drop 32

namespace Bip32

/-- What the HMAC of a step is computed from. -/
def hmacInput (P : Primitives) (n : Node) (c : ℤ × Bool) : Bytes × Bytes := (n.chain, message P n c)

section Input

variable {P : Primitives} {n m n' m' : Node} {c c' : ℤ × Bool}

theorem inRange_of_child (h : child P n c = .ok m) : InRange c := by
  by_contra hr
  obtain ⟨r, hr⟩ := (exists_child_eq_error_iff P n c).mpr (.inl hr)
  cases h.symm.trans hr

theorem chain_of_child (h : child P n c = .ok m) : m.chain = rightHalf P (hmacInput P n c) := by
  rcases child_cases P n c with ⟨-, h'⟩ | ⟨-, -, h'⟩ | ⟨-, -, -, h'⟩ | ⟨-, -, -, k, -, h'⟩
  all_goals cases h.symm.trans h'
  rfl

/-- All chain codes below a master node have 32 bytes. -/
theorem length_chain {seed : Bytes} {hseed : ValidSeed P seed} {path : List (ℤ × Bool)}
    (h : derive P (master P seed hseed) path = .ok n) : n.chain.length = 32 := by
  refine Walk.walk_induction (I := fun _ n => n.chain.length = 32) ?_ ?_ h
  · exact (hmac_halves_length P _ seed).2
  · intro l c n m _ _ hchild
    -- a chain code is the right half of an HMAC, which has 64 bytes
    rw [chain_of_child hchild]
    exact (hmac_halves_length P n.chain (message P n c)).2

/-- The HMAC of a step has a longer key than that of a seed. -/
theorem hmacInput_ne_root {seed : Bytes} {hseed : ValidSeed P seed} {path : List (ℤ × Bool)}
    (h : derive P (master P seed hseed) path = .ok n) (c : ℤ × Bool) (b : Bytes) :
    hmacInput P n c ≠ (Bytes.ofString "Bitcoin seed", b) := by
  intro heq
  -- 32 bytes against the twelve of "Bitcoin seed"
  have hkey := congrArg List.length (Prod.mk.inj heq).1
  rw [length_chain h] at hkey
  exact absurd hkey (by decide)

/-- **A message determines the node** it was made from. -/
theorem scalar_of_message (hP : Function.Injective P.compressedPublicKey)
    (h : message P n c = message P n' c) : n.scalar = n'.scalar := by
  unfold message at h
  split at h
  -- hardened: the private key is in the message, in 32 digits
  · have hser := List.append_cancel_left (List.append_cancel_right h)
    have hlt : ∀ k : Scalar, (k : ℕ) < 256 ^ 32 := fun k => lt_trans k.2.2 groupOrder_lt
    exact Subtype.ext (Radix.digits_inj byteDigit (hlt _) (hlt _) hser)
  -- not hardened: the public key is in the message
  · exact hP (List.append_cancel_right h)

theorem hmacInput_inj (hP : Function.Injective P.compressedPublicKey)
    (h : child P n c = .ok m) (h' : child P n' c' = .ok m')
    (heq : hmacInput P n c = hmacInput P n' c') : n = n' ∧ c = c' := by
  obtain ⟨hchain, hmessage⟩ := Prod.mk.inj heq
  obtain rfl := message_inj P n c (inRange_of_child h) (inRange_of_child h') hmessage
  exact ⟨Node.ext (scalar_of_message hP hmessage) hchain, rfl⟩

end Input

end Bip32

section Binding

variable {P : Primitives} {seed seed' : SecretBytes} {path path' : DerivationPath}
  {key key' : ExtendedPrivateKey}

/-- The messages hashed on the way of the nodes are those that the code computes HMACs of. -/
theorem hmacInput_of_hashed (hseed : Bip32.ValidSeed P seed.buf)
    (h : deriveFromSeed P seed path = .ok key) {x : Bytes × Bytes}
    (hx : HashChain.Hashed (Bip32.child P) (Bip32.hmacInput P)
      (Bytes.ofString "Bitcoin seed", seed.buf) (Bip32.master P seed.buf hseed) path.indices x) :
    HmacInput P seed path x := by
  rcases hx with rfl | ⟨front, c, back, node, hsplit, hnode, rfl⟩
  · exact .inl rfl
  · obtain ⟨parent, hparent, hR⟩ : ∃ parent, deriveFromSeed P seed ⟨front⟩ = .ok parent ∧ _ :=
      deriveFromSeed_of_derive hseed hnode
    -- the whole path was walked, so its components are in range
    obtain ⟨⟨m, hm, -⟩, -⟩ := node_of_deriveFromSeed hseed h
    obtain ⟨u, v, huv⟩ := Walk.exists_step_of_walk hm c (by simp [hsplit])
    have hdata := childData_eq (P := P) hR (Bip32.inRange_of_child huv)
    exact .inr ⟨front, c, back, parent, _, hsplit, hparent, hdata,
      Prod.ext hR.chainCode_eq.symm rfl⟩

/-- **The chain code commits to the derivation.** Two derivations that end in one chain code start
from one seed and follow one path, or they exhibit a collision of the right halves of two HMACs
that they computed. -/
theorem chainCode_binds (hP : Function.Injective P.compressedPublicKey)
    (hseed : Bip32.ValidSeed P seed.buf) (hseed' : Bip32.ValidSeed P seed'.buf)
    (h : deriveFromSeed P seed path = .ok key) (h' : deriveFromSeed P seed' path' = .ok key')
    (hchain : key.chainCode = key'.chainCode) :
    (seed = seed' ∧ path = path') ∨
      ∃ x x', HmacInput P seed path x ∧ HmacInput P seed' path' x' ∧ x ≠ x' ∧
        rightHalf P x = rightHalf P x' := by
  obtain ⟨⟨n, hn, hR⟩, -⟩ := node_of_deriveFromSeed hseed h
  obtain ⟨⟨n', hn', hR'⟩, -⟩ := node_of_deriveFromSeed hseed' h'
  -- the chain codes of the keys are those of the nodes they refine
  have htag : n.chain = n'.chain := by rw [← hR.chainCode_eq, hchain, hR'.chainCode_eq]
  have hbinds := HashChain.walk_binds (H := rightHalf P)
    (show ∀ n c m, Bip32.child P n c = .ok m → m.chain = rightHalf P (Bip32.hmacInput P n c) from
      fun n c m => Bip32.chain_of_child)
    (fun n c m n' c' m' => Bip32.hmacInput_inj hP)
    (show (Bip32.master P seed.buf hseed).chain
      = rightHalf P (Bytes.ofString "Bitcoin seed", seed.buf) from rfl)
    (show (Bip32.master P seed'.buf hseed').chain
      = rightHalf P (Bytes.ofString "Bitcoin seed", seed'.buf) from rfl)
    (fun l u c hu => Bip32.hmacInput_ne_root hu c seed.buf)
    (fun l u c hu => Bip32.hmacInput_ne_root hu c seed'.buf) hn hn' htag
  rcases hbinds with ⟨hroot, hpath⟩ | ⟨x, x', hx, hx', hne, heq⟩
  · exact .inl ⟨SecretBytes.ext (Prod.mk.inj hroot).2, DerivationPath.ext hpath⟩
  · exact .inr ⟨x, x', hmacInput_of_hashed hseed h hx, hmacInput_of_hashed hseed' h' hx', hne, heq⟩

end Binding

/-- All chain codes of `toy` are zero, so any two paths will do. -/
theorem chainCode_binds_toy : ∃ key key',
    deriveFromSeed Primitives.toy ⟨[1], by simp⟩ ⟨[(44, true)]⟩ = .ok key ∧
    deriveFromSeed Primitives.toy ⟨[2], by simp⟩ ⟨[(0, false), (7, true)]⟩ = .ok key' ∧
    ∃ x x', HmacInput Primitives.toy ⟨[1], by simp⟩ ⟨[(44, true)]⟩ x ∧
      HmacInput Primitives.toy ⟨[2], by simp⟩ ⟨[(0, false), (7, true)]⟩ x' ∧ x ≠ x' ∧
      rightHalf Primitives.toy x = rightHalf Primitives.toy x' := by
  have hzero : ∀ r : Except PyExc ExtendedPrivateKey,
      r.toOption.map (fun key => key.chainCode.buf) = some (List.replicate 32 0) →
      ∃ key, r = .ok key ∧ key.chainCode.buf = List.replicate 32 0 := by
    intro r hr
    cases r with
    | error e => cases hr
    | ok key => exact ⟨key, rfl, Option.some.inj hr⟩
  obtain ⟨key, hkey, hchain⟩ :=
    hzero (deriveFromSeed Primitives.toy ⟨[1], by simp⟩ ⟨[(44, true)]⟩) (by decide +kernel)
  obtain ⟨key', hkey', hchain'⟩ :=
    hzero (deriveFromSeed Primitives.toy ⟨[2], by simp⟩ ⟨[(0, false), (7, true)]⟩)
      (by decide +kernel)
  -- the seeds differ, so there must be a collision
  rcases chainCode_binds toy_compressedPublicKey_injective (by decide) (by decide) hkey hkey'
    (SecretBytes.ext (hchain.trans hchain'.symm)) with ⟨hseed, -⟩ | hcollision
  · exact absurd (congrArg SecretBytes.buf hseed) (by decide)
  · exact ⟨key, key', hkey, hkey', hcollision⟩

end KeystoneCrypto
