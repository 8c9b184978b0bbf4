import KeystoneCrypto.Derivation.Keys
import KeystoneCrypto.Lib.Tweak
import KeystoneCrypto.Keystore

/-!
# Derivation without the private key

The message of a step that is not hardened is made from the compressed public key, so the step is a
tweak that can be followed in public: whoever knows the public key and the chain code of an account
derives the public keys below it, and sees the steps fail that fail for the owner
(`watched`). What the owner adds to the private key on the way is public as well. One
private key from below, with the public key and the chain code above, gives away the private key
above (`recover_parent`), which is why the levels over an account have to be hardened.

The curve enters as a group with a generator of the order that `coincurve` works with, and public
keys as its multiples, in some encoding. Multiples of a generator are residues modulo its order, so
the scalars of the nodes are read as residues (`Node.residue`); there a step is an addition, and one
step of the owner matches one of the observer (`child_residue`). All statements about paths come from
this one by the rules of `Lib.Tweak` and `Lib.Walk`, and reach the code through the nodes that its
keys refine (`exists_node_below`).
-/

namespace KeystoneCrypto

namespace Bip32

-- residues modulo the group order are numbers below it
instance instNeZeroGroupOrder : NeZero groupOrder := ⟨by decide⟩

/-- A group in which the public keys of `coincurve` are multiples of a generator. -/
structure Curve (P : Primitives) (G : Type) [AddCommGroup G] where
  generator : G
  order_eq : addOrderOf generator = groupOrder
  /-- The compressed encoding of a point. -/
  serP : G → Bytes
  publicKey_eq : ∀ k : Scalar, P.compressedPublicKey k = serP ((k : ℕ) • generator)

section Curve

variable {P : Primitives} {G : Type} [AddCommGroup G] (C : Curve P G)

theorem Curve.zmultiples_groupOrder : zmultiplesHom G C.generator (groupOrder : ℤ) = 0 := by
  change ((groupOrder : ℕ) : ℤ) • C.generator = 0
  rw [natCast_zsmul, ← C.order_eq, addOrderOf_nsmul_eq_zero]

/-- The point of a residue. -/
def Curve.mul : ZMod groupOrder →+ G :=
  ZMod.lift groupOrder ⟨zmultiplesHom G C.generator, C.zmultiples_groupOrder⟩

theorem Curve.mul_natCast (k : ℕ) : C.mul (k : ZMod groupOrder) = k • C.generator := by
  have h := ZMod.lift_coe groupOrder ⟨zmultiplesHom G C.generator, C.zmultiples_groupOrder⟩ (k : ℤ)
  rw [Int.cast_natCast] at h
  exact h.trans (natCast_zsmul _ _)

/-- Residues with one point are equal, since the generator has the full order. -/
theorem Curve.mul_injective : Function.Injective C.mul := by
  refine (injective_iff_map_eq_zero C.mul).mpr ?_
  intro a h
  rw [← ZMod.natCast_zmod_val a, C.mul_natCast] at h
  -- the order divides a number below itself only if that number is zero
  have hdvd := addOrderOf_dvd_of_nsmul_eq_zero h
  rw [C.order_eq] at hdvd
  exact (ZMod.val_eq_zero a).mp (Nat.eq_zero_of_dvd_of_lt hdvd (ZMod.val_lt a))

/-- What BIP-32 computes from a public key and a chain code for an index that is not hardened. -/
def Curve.rule (y : G × Bytes) (i : ℤ) : Except Reject (ZMod groupOrder × Bytes) :=
  let I := P.hmacSha512 y.2 (C.serP y.1 ++ ser32 (childNumber (i, false)).toNat)
  if ¬ InRange (i, false) then .error .index
  else if groupOrder ≤ intFromBytes (I.take 32) then .error .left
  else .ok ((intFromBytes (I.take 32) : ZMod groupOrder), I.drop 32)

/-- Steps that are not hardened are tweaks. -/
def Curve.tweak : Tweak (ZMod groupOrder) G Bytes ℤ Reject where
  point := C.mul
  point_injective := C.mul_injective
  rule := C.rule
  zero := .zero

/-- The scalar of a node as a residue, with its chain code. -/
def Node.residue (n : Node) : ZMod groupOrder × Bytes :=
  (((n.scalar : ℕ) : ZMod groupOrder), n.chain)

/-- **One step.** On residues a step that is not hardened is a step of the owner. -/
theorem child_residue (n : Node) (i : ℤ) :
    C.tweak.privateStep n.residue i = (child P n (i, false)).map Node.residue := by
  -- the observer hashes what the owner hashes, since the message has the public key in it
  have hmessage : C.serP (C.tweak.publish n.residue).1 ++ ser32 (childNumber (i, false)).toNat
      = message P n (i, false) := by
    unfold message
    rw [if_neg Bool.false_ne_true, C.publicKey_eq]
    exact congrArg (C.serP · ++ _) (C.mul_natCast n.scalar)
  have hrule : C.rule (C.tweak.publish n.residue) i = if ¬ InRange (i, false) then .error .index
      else if groupOrder ≤ left P n (i, false) then .error .left
      else .ok ((left P n (i, false) : ZMod groupOrder), right P n (i, false)) := by
    unfold Curve.rule
    rw [hmessage]
    rfl
  -- the sum is zero as a residue exactly if its remainder is
  have hsum : n.residue.1 + (left P n (i, false) : ZMod groupOrder)
      = ((left P n (i, false) + n.scalar : ℕ) : ZMod groupOrder) := by
    rw [Nat.cast_add, add_comm]
    rfl
  have hzero : ((left P n (i, false) + n.scalar : ℕ) : ZMod groupOrder) = 0
      ↔ (left P n (i, false) + n.scalar) % groupOrder = 0 := by
    rw [ZMod.natCast_eq_zero_iff, Nat.dvd_iff_mod_eq_zero]
  -- both refuse in the same three cases, and otherwise add the same residue
  unfold Tweak.privateStep
  rw [show C.tweak.rule = C.rule from rfl, hrule]
  rcases child_cases P n (i, false) with ⟨hr, h⟩ | ⟨hr, hl, h⟩ | ⟨hr, hl, hz, h⟩ |
    ⟨hr, hl, hz, k, hk, h⟩
  · rw [if_pos hr, h]
    rfl
  · rw [if_neg (not_not.mpr hr), if_pos hl, h]
    rfl
  · rw [if_neg (not_not.mpr hr), if_neg (Nat.not_le.mpr hl), h]
    change (if n.residue.1 + (left P n (i, false) : ZMod groupOrder) = 0 then _ else _) = _
    rw [hsum, if_pos (hzero.mpr hz)]
    rfl
  · rw [if_neg (not_not.mpr hr), if_neg (Nat.not_le.mpr hl), h]
    change (if n.residue.1 + (left P n (i, false) : ZMod groupOrder) = 0 then _ else _) = _
    rw [hsum, if_neg (fun h' => hz (hzero.mp h'))]
    refine congrArg Except.ok (Prod.ext ?_ rfl)
    change ((left P n (i, false) + n.scalar : ℕ) : ZMod groupOrder) = ((k : ℕ) : ZMod groupOrder)
    rw [hk, ZMod.natCast_mod]

/-- A path without hardened components. -/
def plain (path : List ℤ) : List (ℤ × Bool) := path.map fun i => (i, false)

/-- On residues a walk without hardened components is a walk of the owner. -/
theorem walk_residue (n : Node) (path : List ℤ) :
    Walk.walk C.tweak.privateStep n.residue path
      = (derive P n (plain path)).map Node.residue := by
  unfold derive plain
  rw [Walk.walk_translate]
  exact Walk.walk_map (fun n i => child_residue C n i) n path

/-- The derivation of an observer. -/
def Curve.watch [DecidableEq G] (y : G × Bytes) (path : List ℤ) : Except Reject (G × Bytes) :=
  Walk.walk C.tweak.publicStep y path

/-- The public key and the chain code of a node. -/
def Curve.publicNode (n : Node) : G × Bytes := ((n.scalar : ℕ) • C.generator, n.chain)

theorem publish_residue (n : Node) : C.tweak.publish n.residue = C.publicNode n :=
  Prod.ext (C.mul_natCast n.scalar) rfl

/-- **Walks.** An observer derives the public halves of what the owner derives. -/
theorem watch_publicNode [DecidableEq G] (n : Node) (path : List ℤ) :
    C.watch (C.publicNode n) path = (derive P n (plain path)).map C.publicNode := by
  unfold Curve.watch
  -- publishing commutes with walking for any tweak, and residues follow the nodes
  rw [← publish_residue, Tweak.walk_publish, walk_residue]
  cases derive P n (plain path) with
  | error r => rfl
  | ok m => exact congrArg Except.ok (publish_residue C m)

/-- The scalar of a node, from its public half and the scalar of a node below. -/
def Curve.recover (y : G × Bytes) (path : List ℤ) (k : ℕ) : ℕ :=
  (C.tweak.recover y path (k : ZMod groupOrder)).val

/-- **Recovery.** The scalar at the end of a walk gives away the scalar at its start. -/
theorem recover_of_derive {n m : Node} {path : List ℤ} (h : derive P n (plain path) = .ok m) :
    C.recover (C.publicNode n) path m.scalar = n.scalar := by
  have hwalk : Walk.walk C.tweak.privateStep n.residue path = .ok m.residue := by
    rw [walk_residue, h]
    rfl
  -- the observer knows every `IL` on the way and subtracts them from the scalar below
  have hback := C.tweak.recover_of_walk hwalk
  rw [publish_residue] at hback
  unfold Curve.recover
  rw [show ((m.scalar : ℕ) : ZMod groupOrder) = m.residue.1 from rfl, hback]
  exact ZMod.val_natCast_of_lt n.scalar.2.2

end Curve

end Bip32

section Public

variable {P : Primitives} {G : Type} [AddCommGroup G]

/-- What an account publishes about an extended key: its public key as a point, and its chain
code. -/
def ExtendedPrivateKey.publicHalf (C : Bip32.Curve P G) (key : ExtendedPrivateKey) : G × Bytes :=
  (intFromBytes key.privateKey.buf • C.generator, key.chainCode.buf)

theorem ExtendedPrivateKey.Refines.publicHalf_eq (C : Bip32.Curve P G) {key : ExtendedPrivateKey}
    {node : Bip32.Node} (h : key.Refines node) : key.publicHalf C = C.publicNode node := by
  unfold publicHalf Bip32.Curve.publicNode
  rw [h.privateKey_eq, h.chainCode_eq, intFromBytes_ser256]

/-- The public key of the ECDSA account at a key. -/
theorem publicKey_of_accountOf (C : Bip32.Curve P G) {seed : SecretBytes} {path : DerivationPath}
    {account : Account} (h : Wallet.accountOf P seed path ecdsaScheme = .ok account) :
    ∃ key, deriveFromSeed P seed path = .ok key ∧
      account.publicKey = C.serP (key.publicHalf C).1 := by
  -- the account is made by the secp256k1 signer, whose public key is that of the derived key
  unfold Wallet.accountOf at h
  obtain ⟨key, hkey, h⟩ := Effect.bind_eq_ok_iff.mp h
  obtain ⟨signer, hsigner, h⟩ := Effect.bind_eq_ok_iff.mp h
  have hsigner : Signer.newSecp256k key.privateKey = .ok signer := hsigner
  obtain ⟨-, sk, hsk, rfl⟩ := Signer.newSecp256k_eq_ok_iff.mp hsigner
  refine ⟨key, hkey, ?_⟩
  rw [← Except.ok.inj h]
  change P.compressedPublicKey sk = _
  rw [C.publicKey_eq, ExtendedPrivateKey.publicHalf, intFromBytes_of_privateKey hsk]

section Watch

variable (C : Bip32.Curve P G) {seed : SecretBytes} {front : List (ℤ × Bool)}
  {parent : ExtendedPrivateKey}

/-- Below a derived key the derivation is that below the node which the key refines. -/
theorem exists_node_below (hseed : Bip32.ValidSeed P seed.buf)
    (hparent : deriveFromSeed P seed ⟨front⟩ = .ok parent) : ∃ node, parent.Refines node ∧ ∀ l,
    (∀ key, deriveFromSeed P seed ⟨front ++ l⟩ = .ok key →
      ∃ m, Bip32.derive P node l = .ok m ∧ key.Refines m) ∧
    (∀ e, deriveFromSeed P seed ⟨front ++ l⟩ = .error e →
      ∃ r, Bip32.derive P node l = .error r ∧ ∃ c ∈ l, e = r.toPyExc c) := by
  obtain ⟨root, hroot, -⟩ := exists_master P seed
  obtain ⟨⟨node, -, hR⟩, -⟩ := node_of_deriveFromSeed hseed hparent
  rw [deriveFromSeed_eq hroot] at hparent
  refine ⟨node, hR, fun l => ?_⟩
  -- a path is walked in two parts, and the first ends at the parent
  have hbelow : deriveFromSeed P seed ⟨front ++ l⟩ = Walk.walk (deriveStep P) parent l := by
    rw [deriveFromSeed_eq hroot, Walk.walk_append, hparent]
    rfl
  rw [hbelow]
  refine ⟨fun key hkey => (Walk.walk_simulates derive_matches hR l).2 key hkey, ?_⟩
  intro e he
  cases hnode : Bip32.derive P node l with
  | ok m =>
    -- a walk of the node would be matched by one of the key
    obtain ⟨key, hkey, -⟩ := (Walk.walk_simulates derive_matches hR l).1 m hnode
    cases hkey.symm.trans he
  | error r =>
    obtain ⟨c, hc, hwalk⟩ := Walk.walk_error_simulates derive_matches hR hnode
    exact ⟨r, rfl, c, hc, Except.error.inj (he.symm.trans hwalk)⟩

/-- What an observer of the key `parent` knows about the keys below it. -/
structure Watched [DecidableEq G] (seed : SecretBytes) (front : List (ℤ × Bool))
    (parent : ExtendedPrivateKey) (path : List ℤ) : Prop where
  /-- Steps that are not hardened lead to the public key and the chain code of the key below. -/
  key : ∀ key, deriveFromSeed P seed ⟨front ++ Bip32.plain path⟩ = .ok key →
    C.watch (parent.publicHalf C) path = .ok (key.publicHalf C)
  /-- Where the derivation of the owner raises, that of the observer is refused for the same
  reason. -/
  error : ∀ e, deriveFromSeed P seed ⟨front ++ Bip32.plain path⟩ = .error e →
    ∃ r, C.watch (parent.publicHalf C) path = .error r ∧ ∃ i ∈ path, e = r.toPyExc (i, false)
  /-- The observer knows the public key of the ECDSA account. -/
  account : ∀ account,
    Wallet.accountOf P seed ⟨front ++ Bip32.plain path⟩ ecdsaScheme = .ok account →
    ∃ y, C.watch (parent.publicHalf C) path = .ok y ∧ account.publicKey = C.serP y.1

/-- **An account can be watched.** The public key and the chain code at a derived key suffice for
all steps below that are not hardened. -/
theorem watched [DecidableEq G] (hseed : Bip32.ValidSeed P seed.buf)
    (hparent : deriveFromSeed P seed ⟨front⟩ = .ok parent) (path : List ℤ) :
    Watched C seed front parent path := by
  obtain ⟨node, hR, hbelow⟩ := exists_node_below hseed hparent
  obtain ⟨hok, herror⟩ := hbelow (Bip32.plain path)
  have hwatch : ∀ key, deriveFromSeed P seed ⟨front ++ Bip32.plain path⟩ = .ok key →
      C.watch (parent.publicHalf C) path = .ok (key.publicHalf C) := by
    intro key hkey
    obtain ⟨m, hm, hRm⟩ := hok key hkey
    rw [hR.publicHalf_eq, Bip32.watch_publicNode, hm, hRm.publicHalf_eq]
    rfl
  refine ⟨hwatch, ?_, ?_⟩
  · intro e he
    obtain ⟨r, hr, c, hc, rfl⟩ := herror e he
    obtain ⟨i, hi, rfl⟩ := List.mem_map.mp hc
    refine ⟨r, ?_, i, hi, rfl⟩
    rw [hR.publicHalf_eq, Bip32.watch_publicNode, hr]
    rfl
  · intro account haccount
    obtain ⟨key, hkey, hpublic⟩ := publicKey_of_accountOf C haccount
    exact ⟨_, hwatch key hkey, hpublic⟩

/-- **A private key below gives away the one above.** The public key and the chain code at a
derived key, together with the private key at the end of steps that are not hardened, determine the
private key the steps started from. -/
theorem recover_parent (hseed : Bip32.ValidSeed P seed.buf)
    (hparent : deriveFromSeed P seed ⟨front⟩ = .ok parent) {path : List ℤ}
    {key : ExtendedPrivateKey}
    (hkey : deriveFromSeed P seed ⟨front ++ Bip32.plain path⟩ = .ok key) :
    Bip32.ser256 (C.recover (parent.publicHalf C) path (intFromBytes key.privateKey.buf))
      = parent.privateKey.buf := by
  obtain ⟨node, hR, hbelow⟩ := exists_node_below hseed hparent
  obtain ⟨m, hm, hRm⟩ := (hbelow (Bip32.plain path)).1 key hkey
  rw [hR.publicHalf_eq, hRm.privateKey_eq, intFromBytes_ser256, Bip32.recover_of_derive C hm,
    hR.privateKey_eq]

end Watch

end Public

/-- The curve of `toy`: residues, in 32 bytes behind a marker. -/
def toyCurve : Bip32.Curve Primitives.toy (ZMod groupOrder) where
  generator := 1
  order_eq := ZMod.addOrderOf_one groupOrder
  serP x := 2 :: Radix.digits byteDigit 32 x.val
  publicKey_eq k := by
    rw [nsmul_eq_mul, mul_one, ZMod.val_natCast_of_lt k.2.2]
    rfl

/-- Under `toy` the seed of one byte has an account at `44'` with a key at `0/7` below. -/
theorem exists_toyKeys : ∃ parent key,
    deriveFromSeed Primitives.toy ⟨[1], by simp⟩ ⟨[(44, true)]⟩ = .ok parent ∧
    deriveFromSeed Primitives.toy ⟨[1], by simp⟩ ⟨[(44, true)] ++ Bip32.plain [0, 7]⟩
      = .ok key := by
  have hparent : (deriveFromSeed Primitives.toy ⟨[1], by simp⟩ ⟨[(44, true)]⟩).isOk = true := by
    decide +kernel
  have hkey : (deriveFromSeed Primitives.toy ⟨[1], by simp⟩
      ⟨[(44, true)] ++ Bip32.plain [0, 7]⟩).isOk = true := by
    decide +kernel
  obtain ⟨parent, hparent⟩ := Effect.isOk_iff.mp hparent
  obtain ⟨key, hkey⟩ := Effect.isOk_iff.mp hkey
  exact ⟨parent, key, hparent, hkey⟩

theorem watched_toy : ∃ parent,
    deriveFromSeed Primitives.toy ⟨[1], by simp⟩ ⟨[(44, true)]⟩ = .ok parent ∧
      Watched toyCurve ⟨[1], by simp⟩ [(44, true)] parent [0, 7] := by
  obtain ⟨parent, -, hparent, -⟩ := exists_toyKeys
  exact ⟨parent, hparent, watched toyCurve (by decide) hparent [0, 7]⟩

theorem recover_parent_toy : ∃ parent key,
    deriveFromSeed Primitives.toy ⟨[1], by simp⟩ ⟨[(44, true)]⟩ = .ok parent ∧
    deriveFromSeed Primitives.toy ⟨[1], by simp⟩ ⟨[(44, true)] ++ Bip32.plain [0, 7]⟩
      = .ok key ∧
    Bip32.ser256 (toyCurve.recover (parent.publicHalf toyCurve) [0, 7]
      (intFromBytes key.privateKey.buf)) = parent.privateKey.buf := by
  obtain ⟨parent, key, hparent, hkey⟩ := exists_toyKeys
  exact ⟨parent, key, hparent, hkey, recover_parent toyCurve (by decide) hparent hkey⟩

end KeystoneCrypto
