import KeystoneCrypto.Derivation
import KeystoneCrypto.Bip32

/-!
# Derivation refines BIP-32

`ExtendedPrivateKey.derive` computes on byte strings what `Bip32.child` computes on scalars. A key
*refines* a node if it holds the node's scalar in 32 bytes and its chain code; steps from a key and
from the node it refines match (`derive_matches`), so derivations from a seed match the walks from
the master node, failure by failure.

`derivesAsBip32` collects what follows for `derive_from_seed`: when it raises, what it raises, and
the private key, depth, child number and parent fingerprint of what it returns.
-/

namespace KeystoneCrypto

/-! ### Keys and nodes -/

/-- A key that holds the scalar and the chain code of a node. -/
structure ExtendedPrivateKey.Refines (key : ExtendedPrivateKey) (node : Bip32.Node) : Prop where
  privateKey_eq : key.privateKey.buf = Bip32.ser256 node.scalar
  chainCode_eq : key.chainCode.buf = node.chain

/-- The first four bytes of HASH160 of a public key. -/
def fingerprintOf (P : Primitives) (k : Scalar) : Bytes :=
  (P.ripemd160 (P.sha256 (P.compressedPublicKey k))).take 4

/-- The exception for a refused step. -/
def Bip32.Reject.toPyExc (c : ℤ × Bool) : Bip32.Reject → PyExc
  | .index => ⟨.valueError, [.lit "index out of range: ", .int c.1]⟩
  | .left => ⟨.valueError, [.lit "derivation produced invalid child key (IL >= n)"]⟩
  | .zero => ⟨.valueError, [.lit "derivation produced zero child key"]⟩

theorem intFromBytes_ser256 (k : Scalar) : intFromBytes (Bip32.ser256 k) = k := by
  have hlt : (k : ℕ) < 256 ^ 32 := lt_trans k.2.2 groupOrder_lt
  unfold intFromBytes Bip32.ser256
  rw [Radix.value_digits_of_lt byteDigit hlt]

theorem privateKey_ser256 (k : Scalar) : privateKey (Bip32.ser256 k) = .ok k :=
  privateKey_of_intFromBytes (intFromBytes_ser256 k)

theorem hmac_halves_length (P : Primitives) (k b : Bytes) :
    ((P.hmacSha512 k b).take 32).length = 32 ∧ ((P.hmacSha512 k b).drop 32).length = 32 := by
  rw [List.length_take, List.length_drop, P.hmacSha512_length]
  exact ⟨rfl, rfl⟩

/-- Both halves of an HMAC are nonempty, so each can be wrapped. -/
theorem hmac_halves_ne_nil (P : Primitives) (k b : Bytes) :
    (P.hmacSha512 k b).take 32 ≠ [] ∧ (P.hmacSha512 k b).drop 32 ≠ [] := by
  obtain ⟨hleft, hright⟩ := hmac_halves_length P k b
  refine ⟨List.ne_nil_of_length_pos ?_, List.ne_nil_of_length_pos ?_⟩
  · rw [hleft]
    decide
  · rw [hright]
    decide

theorem ser256_ne_nil (k : ℕ) : Bip32.ser256 k ≠ [] := by
  apply List.ne_nil_of_length_pos
  rw [Bip32.ser256, Radix.length_digits]
  decide

section Step

variable {P : Primitives} {key : ExtendedPrivateKey} {node : Bip32.Node}

theorem ExtendedPrivateKey.Refines.fingerprint_eq (h : key.Refines node) :
    key.fingerprint P = .ok (fingerprintOf P node.scalar) := by
  unfold ExtendedPrivateKey.fingerprint
  rw [h.privateKey_eq, privateKey_ser256]
  rfl

theorem packU32_childNumber {c : ℤ × Bool} (h : Bip32.InRange c) :
    packU32 (Bip32.childNumber c) = .ok (Bip32.ser32 (Bip32.childNumber c).toNat) := by
  obtain ⟨h₀, h₁⟩ := h
  refine packU32_eq_ok_iff.mpr ⟨?_, ?_, rfl⟩
  · unfold Bip32.childNumber
    split <;> omega
  · unfold Bip32.childNumber
    split <;> omega

/-- A hardened message is a zero byte, the private key and the child number. -/
theorem childData_hardened {i : ℤ} (hi : Bip32.InRange (i, true)) :
    key.childData P (Bip32.childNumber (i, true))
      = .ok ([0] ++ key.privateKey.buf ++ Bip32.ser32 (Bip32.childNumber (i, true)).toNat) := by
  have hge : hardenedOffset ≤ Bip32.childNumber (i, true) := by
    obtain ⟨h₀, -⟩ := hi
    change 0x80000000 ≤ i + 2 ^ 31
    omega
  unfold ExtendedPrivateKey.childData
  rw [if_pos hge, packU32_childNumber hi]
  rfl

/-- The message of the code is the message of BIP-32. -/
theorem childData_eq (h : key.Refines node) {c : ℤ × Bool} (hc : Bip32.InRange c) :
    key.childData P (Bip32.childNumber c) = .ok (Bip32.message P node c) := by
  obtain ⟨i, hardened⟩ := c
  have hpack := packU32_childNumber hc
  cases hardened with
  | false =>
    have hlt : ¬ hardenedOffset ≤ Bip32.childNumber (i, false) := by
      obtain ⟨-, h₁⟩ := hc
      change ¬ 0x80000000 ≤ i
      omega
    unfold ExtendedPrivateKey.childData
    rw [if_neg hlt, h.privateKey_eq, privateKey_ser256, hpack]
    rfl
  | true =>
    rw [childData_hardened hc, h.privateKey_eq, Bip32.message, if_pos rfl]

/-- What a key returned by `derive` has to do with the key it came from. -/
structure IsChild (P : Primitives) (key : ExtendedPrivateKey) (c : ℤ × Bool)
    (key' : ExtendedPrivateKey) : Prop where
  depth_eq : key'.depth = key.depth + 1
  childNumber_eq : key'.childNumber = Bip32.childNumber c
  parentFingerprint_eq : key.fingerprint P = .ok key'.parentFingerprint

/-- With an index in range, both index checks of `derive` pass and its HMAC is that of BIP-32; what
is left is the arithmetic. -/
theorem derive_eq_of_inRange (h : key.Refines node) {c : ℤ × Bool} (hr : Bip32.InRange c) :
    key.derive P c.1 c.2 = (do
      raiseIf (groupOrder ≤ Bip32.left P node c) .valueError
        [.lit "derivation produced invalid child key (IL >= n)"]
      raiseIf ((Bip32.left P node c + node.scalar) % groupOrder = 0) .valueError
        [.lit "derivation produced zero child key"]
      let childKey ← intToBytes ((Bip32.left P node c + node.scalar) % groupOrder) 32
      let secretKey ← SecretBytes.new childKey
      let chainCode ← SecretBytes.new (Bip32.right P node c)
      let parentFingerprint ← key.fingerprint P
      return { privateKey := secretKey, chainCode, depth := key.depth + 1, parentFingerprint
               childNumber := Bip32.childNumber c }) := by
  have hindex : (if c.2 = true then c.1 + hardenedOffset else c.1) = Bip32.childNumber c := rfl
  have hn := secp256k1N_eq
  have hdata := childData_eq (P := P) h hr
  obtain ⟨h₀, h₁⟩ := hr
  have hok : ¬ (c.1 < 0 ∨ 0x7FFFFFFF < c.1) := by omega
  -- 31 bits plus the offset stay within 32, so the second check cannot fire
  have heff : ¬ (Bip32.childNumber c < 0 ∨ maxChildIndex < Bip32.childNumber c) := by
    unfold Bip32.childNumber maxChildIndex
    split <;> omega
  unfold ExtendedPrivateKey.derive
  simp only [hindex]
  rw [raiseIf_neg hok, raiseIf_neg heff, hdata]
  simp only [Effect.ok_bind, h.chainCode_eq, h.privateKey_eq, intFromBytes_ser256, hn]
  rfl

/-- **One step.** From a key that refines a node, `derive` fails as the node's step is refused,
and else returns a key that refines the node's child. The check of the effective index passes
whenever the check of the index did. -/
theorem derive_spec (h : key.Refines node) (c : ℤ × Bool) :
    (∃ r, Bip32.child P node c = .error r ∧ key.derive P c.1 c.2 = .error (r.toPyExc c)) ∨
    (∃ node' key', Bip32.child P node c = .ok node' ∧ key.derive P c.1 c.2 = .ok key' ∧
      key'.Refines node' ∧ IsChild P key c key') := by
  rcases Bip32.child_cases P node c with ⟨hr, hchild⟩ | hin
  · -- out of range: the first check of the source
    refine .inl ⟨_, hchild, ?_⟩
    have hbad : c.1 < 0 ∨ 0x7FFFFFFF < c.1 := by
      unfold Bip32.InRange at hr
      omega
    unfold ExtendedPrivateKey.derive
    rw [raiseIf_pos hbad]
    rfl
  · have hr : Bip32.InRange c := by
      rcases hin with ⟨hr, -⟩ | ⟨hr, -⟩ | ⟨hr, -⟩ <;> exact hr
    have hderive := derive_eq_of_inRange (P := P) h hr
    rcases hin with ⟨-, hl, hchild⟩ | ⟨-, hl, hz, hchild⟩ | ⟨-, hl, hz, k, hk, hchild⟩
    · refine .inl ⟨_, hchild, ?_⟩
      rw [hderive, raiseIf_pos hl]
      rfl
    · refine .inl ⟨_, hchild, ?_⟩
      rw [hderive, raiseIf_neg (Nat.not_le.mpr hl), raiseIf_pos hz]
      rfl
    · -- a valid sum is written in 32 bytes, and the fingerprint is that of the parent
      have hright : Bip32.right P node c ≠ [] := (hmac_halves_ne_nil P _ _).2
      have hkey := ser256_ne_nil k
      refine .inr ⟨_, ⟨⟨Bip32.ser256 k, hkey⟩, ⟨Bip32.right P node c, hright⟩, key.depth + 1,
        fingerprintOf P node.scalar, Bip32.childNumber c⟩, hchild, ?_, ⟨rfl, rfl⟩,
        ⟨rfl, rfl, h.fingerprint_eq⟩⟩
      rw [hderive, raiseIf_neg (Nat.not_le.mpr hl), raiseIf_neg hz, ← hk,
        intToBytes_of_lt (lt_trans k.2.2 groupOrder_lt), h.fingerprint_eq]
      simp only [Effect.ok_bind]
      rw [show Radix.digits byteDigit 32 (k : ℕ) = Bip32.ser256 k from rfl,
        SecretBytes.new_of_ne_nil hkey, SecretBytes.new_of_ne_nil hright]
      rfl

end Step

/-! ### Runs -/

/-- One step along a path. -/
def deriveStep (P : Primitives) (key : ExtendedPrivateKey) (c : ℤ × Bool) :
    Except PyExc ExtendedPrivateKey :=
  key.derive P c.1 c.2

/-- Steps of the code and of BIP-32 match. -/
theorem derive_matches {P : Primitives} (node : Bip32.Node) (key : ExtendedPrivateKey)
    (c : ℤ × Bool) (h : key.Refines node) :
    Walk.Matches (fun node key => ExtendedPrivateKey.Refines key node)
      (fun c r => Bip32.Reject.toPyExc c r) c (Bip32.child P node c) (deriveStep P key c) := by
  unfold Walk.Matches deriveStep
  rcases derive_spec (P := P) h c with ⟨r, hchild, hderive⟩ | ⟨node', key', hchild, hderive, hR, -⟩
  · rw [hchild]
    exact hderive
  · rw [hchild]
    exact ⟨key', hderive, hR⟩

section Runs

variable {P : Primitives} {seed : SecretBytes} {path : DerivationPath}

/-- The master key exists, holds the two halves of the master HMAC and has the metadata of a
root. -/
theorem exists_master (P : Primitives) (seed : SecretBytes) :
    ∃ key, ExtendedPrivateKey.master P seed = .ok key ∧
      (∀ h, key.Refines (Bip32.master P seed.buf h)) ∧
      key.depth = 0 ∧ key.childNumber = 0 ∧ key.parentFingerprint = [0, 0, 0, 0] := by
  obtain ⟨hleft, hright⟩ := hmac_halves_ne_nil P (Bytes.ofString "Bitcoin seed") seed.buf
  refine ⟨⟨⟨_, hleft⟩, ⟨_, hright⟩, 0, [0, 0, 0, 0], 0⟩, ?_, fun h => ⟨?_, rfl⟩, rfl, rfl, rfl⟩
  · unfold ExtendedPrivateKey.master
    simp only [SecretBytes.new_of_ne_nil hleft, SecretBytes.new_of_ne_nil hright]
    rfl
  · -- reading 32 bytes and writing them in 32 bytes gives them back
    have hdigits := Radix.digits_value byteDigit
      ((P.hmacSha512 (Bytes.ofString "Bitcoin seed") seed.buf).take 32)
    rw [(hmac_halves_length P (Bytes.ofString "Bitcoin seed") seed.buf).1] at hdigits
    exact hdigits.symm

/-- The number a master key spells. -/
theorem intFromBytes_of_master {key : ExtendedPrivateKey}
    (h : ExtendedPrivateKey.master P seed = .ok key) :
    intFromBytes key.privateKey.buf = Bip32.masterLeft P seed.buf := by
  unfold ExtendedPrivateKey.master at h
  obtain ⟨sk, hsk, h⟩ := Effect.bind_eq_ok_iff.mp h
  obtain ⟨cc, -, h⟩ := Effect.bind_eq_ok_iff.mp h
  rw [← Except.ok.inj h, SecretBytes.new_eq_ok_iff.mp hsk]
  rfl

/-- `derive_from_seed` walks from the master key. -/
theorem deriveFromSeed_eq {key : ExtendedPrivateKey}
    (h : ExtendedPrivateKey.master P seed = .ok key) (path : DerivationPath) :
    deriveFromSeed P seed path = Walk.walk (deriveStep P) key path.indices := by
  unfold deriveFromSeed
  rw [h]
  rfl

/-- What the metadata of a derived key records: the path it was derived along. -/
structure AtPath (P : Primitives) (seed : SecretBytes) (path : List (ℤ × Bool))
    (key : ExtendedPrivateKey) : Prop where
  depth_eq : key.depth = path.length
  root : path = [] → key.childNumber = 0 ∧ key.parentFingerprint = [0, 0, 0, 0]
  last : ∀ front c, path = front ++ [c] → key.childNumber = Bip32.childNumber c ∧
    ∃ parent node, deriveFromSeed P seed ⟨front⟩ = .ok parent ∧ parent.Refines node ∧
      parent.fingerprint P = .ok key.parentFingerprint ∧
      key.parentFingerprint = fingerprintOf P node.scalar

/-- **Runs.** A key derived from a valid seed refines the node at the end of the path, and its
metadata record the path. -/
theorem node_of_deriveFromSeed (hseed : Bip32.ValidSeed P seed.buf) {key : ExtendedPrivateKey}
    (h : deriveFromSeed P seed path = .ok key) :
    (∃ node, Bip32.derive P (Bip32.master P seed.buf hseed) path.indices = .ok node ∧
      key.Refines node) ∧ AtPath P seed path.indices key := by
  obtain ⟨root, hroot, hrefines, hdepth, hchild, hparent⟩ := exists_master P seed
  rw [deriveFromSeed_eq hroot] at h
  refine Walk.walk_induction (I := fun l key =>
    (∃ node, Bip32.derive P (Bip32.master P seed.buf hseed) l = .ok node ∧ key.Refines node) ∧
      AtPath P seed l key) ?_ ?_ h
  · -- the master key
    refine ⟨⟨_, rfl, hrefines hseed⟩, ⟨hdepth, fun _ => ⟨hchild, hparent⟩, ?_⟩⟩
    intro front c hnil
    exact absurd hnil.symm (List.append_ne_nil_of_right_ne_nil front (List.cons_ne_nil c []))
  · -- one step further
    rintro l c parent key' hl ⟨⟨node, hnode, hR⟩, hat⟩ hstep
    rcases derive_spec (P := P) hR c with ⟨r, -, herr⟩ | ⟨node', key'', hc, hok, hR', hmeta⟩
    · rw [show deriveStep P parent c = .error (r.toPyExc c) from herr] at hstep
      cases hstep
    · have hkey : key'' = key' := Except.ok.inj (hok.symm.trans hstep)
      subst hkey
      -- the node moves on with the key, and the metadata record the new component
      refine ⟨⟨node', ?_, hR'⟩, ⟨?_, ?_, ?_⟩⟩
      · unfold Bip32.derive at hnode ⊢
        rw [Walk.walk_concat, hnode]
        exact hc
      · rw [hmeta.depth_eq, hat.depth_eq, List.length_append, List.length_singleton]
        push_cast
        rfl
      · intro hnil
        exact absurd hnil (List.append_ne_nil_of_right_ne_nil l (List.cons_ne_nil c []))
      · intro front c' hsplit
        obtain ⟨rfl, hcc⟩ := List.append_inj' hsplit rfl
        rw [← List.singleton_inj.mp hcc]
        -- the fingerprint the code computed is that of the parent's scalar
        have hfinger := Except.ok.inj (hmeta.parentFingerprint_eq.symm.trans hR.fingerprint_eq)
        refine ⟨hmeta.childNumber_eq, parent, node, ?_, hR, hmeta.parentFingerprint_eq, hfinger⟩
        rw [deriveFromSeed_eq hroot]
        exact hl

/-- **Failures.** `derive_from_seed` raises exactly when a step from a derived key is refused, and
raises the exception for that refusal. -/
theorem deriveFromSeed_eq_error_iff (hseed : Bip32.ValidSeed P seed.buf) {e : PyExc} :
    deriveFromSeed P seed path = .error e ↔ ∃ front c back parent node r,
      path.indices = front ++ c :: back ∧ deriveFromSeed P seed ⟨front⟩ = .ok parent ∧
      parent.Refines node ∧ Bip32.child P node c = .error r ∧ e = r.toPyExc c := by
  obtain ⟨root, hroot, -⟩ := exists_master P seed
  rw [deriveFromSeed_eq hroot, Walk.walk_eq_error_iff]
  refine ⟨?_, ?_⟩
  · -- the key before the failing step refines a node, whose step is refused likewise
    rintro ⟨front, c, back, parent, hsplit, hparent, herr⟩
    rw [← deriveFromSeed_eq hroot ⟨front⟩] at hparent
    obtain ⟨⟨node, -, hR⟩, -⟩ := node_of_deriveFromSeed hseed hparent
    rcases derive_spec (P := P) hR c with ⟨r, hc, hr⟩ | ⟨node', key', -, hok, -⟩
    · exact ⟨front, c, back, parent, node, r, hsplit, hparent, hR, hc,
        Except.error.inj (herr.symm.trans hr)⟩
    · cases herr.symm.trans hok
  · rintro ⟨front, c, back, parent, node, r, hsplit, hparent, hR, hc, rfl⟩
    rw [deriveFromSeed_eq hroot] at hparent
    refine ⟨front, c, back, parent, hsplit, hparent, ?_⟩
    rcases derive_spec (P := P) hR c with ⟨r', hc', hr⟩ | ⟨node', key', hc', -⟩
    · rw [Except.error.inj (hc.symm.trans hc')]
      exact hr
    · cases hc.symm.trans hc'

/-- Conversely every node at the end of a path is refined by a derived key. -/
theorem deriveFromSeed_of_derive (hseed : Bip32.ValidSeed P seed.buf) {node : Bip32.Node}
    (h : Bip32.derive P (Bip32.master P seed.buf hseed) path.indices = .ok node) :
    ∃ key, deriveFromSeed P seed path = .ok key ∧ key.Refines node := by
  obtain ⟨root, hroot, hrefines, -⟩ := exists_master P seed
  rw [deriveFromSeed_eq hroot]
  exact (Walk.walk_simulates derive_matches (hrefines hseed) path.indices).1 node h

/-- A step from a key checks that the key is a valid scalar, if only for the fingerprint. -/
theorem exists_privateKey_of_derive {key key' : ExtendedPrivateKey} {i : ℤ} {hardened : Bool}
    (h : key.derive P i hardened = .ok key') : ∃ k, privateKey key.privateKey.buf = .ok k := by
  unfold ExtendedPrivateKey.derive at h
  -- the fingerprint of the parent is the last thing computed
  simp only [Effect.bind_eq_ok_iff] at h
  obtain ⟨_, -, _, -, _, -, _, -, _, -, _, -, _, -, _, -, _, hfinger, -⟩ := h
  unfold ExtendedPrivateKey.fingerprint at hfinger
  obtain ⟨k, hk, -⟩ := Effect.bind_eq_ok_iff.mp hfinger
  exact ⟨k, hk⟩

/-- The number a key of the empty path spells is the left half of the master HMAC. -/
theorem intFromBytes_of_deriveFromSeed_nil {key : ExtendedPrivateKey} (hpath : path.indices = [])
    (h : deriveFromSeed P seed path = .ok key) :
    intFromBytes key.privateKey.buf = Bip32.masterLeft P seed.buf := by
  unfold deriveFromSeed at h
  obtain ⟨root, hroot, hwalk⟩ := Effect.bind_eq_ok_iff.mp h
  rw [hpath, Walk.walk_nil, Except.ok.injEq] at hwalk
  rw [← hwalk]
  exact intFromBytes_of_master hroot

/-- Taking a step at all needs a valid master scalar. -/
theorem validSeed_of_deriveFromSeed {key : ExtendedPrivateKey} (hpath : path.indices ≠ [])
    (h : deriveFromSeed P seed path = .ok key) : Bip32.ValidSeed P seed.buf := by
  unfold deriveFromSeed at h
  obtain ⟨root, hroot, hwalk⟩ := Effect.bind_eq_ok_iff.mp h
  obtain ⟨c, rest, hcons⟩ := List.exists_cons_of_ne_nil hpath
  rw [hcons, Walk.walk_cons] at hwalk
  obtain ⟨child, hchild, -⟩ := Effect.bind_eq_ok_iff.mp hwalk
  -- the first step computes the fingerprint of the master key
  obtain ⟨k, hk⟩ := exists_privateKey_of_derive hchild
  have hrange := k.2
  rwa [← intFromBytes_of_privateKey hk, intFromBytes_of_master hroot] at hrange

end Runs

/-! ### Parsed paths -/

namespace DerivationPath

/-- A parsed component has an index of 31 bits. -/
theorem inRange_of_parseComponent {part : PyStr} {c : ℤ × Bool}
    (h : parseComponent part = .ok c) : Bip32.InRange c := by
  unfold parseComponent at h
  obtain ⟨_, -, h⟩ := Effect.bind_eq_ok_iff.mp h
  obtain ⟨idx, -, h⟩ := Effect.bind_eq_ok_iff.mp h
  obtain ⟨_, hr, h⟩ := Effect.bind_eq_ok_iff.mp h
  have hin := raiseIf_eq_ok_iff.mp hr
  rw [← Except.ok.inj h]
  refine ⟨?_, ?_⟩
  · by_contra hneg
    exact hin (.inl (lt_of_not_ge hneg))
  · by_contra hbig
    refine hin (.inr ?_)
    have := lt_of_not_ge hbig
    simpa using this

/-- **Parsed indices are in range.** -/
theorem inRange_of_parse {s : PyStr} {path : DerivationPath} (h : parse s = .ok path) :
    ∀ c ∈ path.indices, Bip32.InRange c := by
  unfold parse at h
  simp only at h
  split at h
  · intro c hc
    rw [← Except.ok.inj h] at hc
    exact absurd hc List.not_mem_nil
  · obtain ⟨_, -, h⟩ := Effect.bind_eq_ok_iff.mp h
    obtain ⟨out, hout, h⟩ := Effect.bind_eq_ok_iff.mp h
    intro c hc
    rw [← Except.ok.inj h] at hc
    obtain ⟨part, -, hpart⟩ := Effect.exists_of_mem_mapM hout hc
    exact inRange_of_parseComponent hpart

end DerivationPath

/-! ### The whole statement -/

/-- What BIP-32 says about `derive_from_seed` on a valid seed. -/
structure DerivesAsBip32 (P : Primitives) (seed : SecretBytes)
    (hseed : Bip32.ValidSeed P seed.buf) (path : DerivationPath) : Prop where
  /-- It raises exactly when some step from a derived key has an index out of range, an `IL` not
  below the group order, or a sum that is zero. -/
  fails_iff : (∃ e, deriveFromSeed P seed path = .error e) ↔ ∃ front c back parent node,
    path.indices = front ++ c :: back ∧ deriveFromSeed P seed ⟨front⟩ = .ok parent ∧
    parent.Refines node ∧ ((c.1 < 0 ∨ 2 ^ 31 - 1 < c.1) ∨ groupOrder ≤ Bip32.left P node c ∨
      (Bip32.left P node c + node.scalar) % groupOrder = 0)
  /-- What it raises is `ValueError`, and never for the effective index. -/
  error_type : ∀ e, deriveFromSeed P seed path = .error e → e.type = .valueError ∧
    ∀ i, e.text ≠ [.lit "effective child index out of range: ", .int i]
  /-- On a parsed path it does not raise for an index. -/
  error_parsed : ∀ s e, DerivationPath.parse s = .ok path → deriveFromSeed P seed path = .error e →
    ∀ i, e.text ≠ [.lit "index out of range: ", .int i]
  /-- The private key is the master scalar plus all the `IL`, modulo the group order, in 32
  bytes. -/
  privateKey_eq : ∀ key, deriveFromSeed P seed path = .ok key → key.privateKey.buf =
    Bip32.ser256 ((Bip32.masterLeft P seed.buf +
      (Bip32.lefts P (Bip32.master P seed.buf hseed) path.indices).sum) % groupOrder)
  /-- Depth, child number and parent fingerprint record the path. -/
  atPath : ∀ key, deriveFromSeed P seed path = .ok key → AtPath P seed path.indices key

/-- **Derivation along a path**, for a seed whose master scalar is valid and a path of any
length. -/
theorem derivesAsBip32 (P : Primitives) (seed : SecretBytes)
    (hseed : Bip32.ValidSeed P seed.buf) (path : DerivationPath) :
    DerivesAsBip32 P seed hseed path where
  fails_iff := by
    refine ⟨?_, ?_⟩
    · rintro ⟨e, he⟩
      obtain ⟨front, c, back, parent, node, r, hsplit, hparent, hR, hc, -⟩ :=
        (deriveFromSeed_eq_error_iff hseed).mp he
      refine ⟨front, c, back, parent, node, hsplit, hparent, hR, ?_⟩
      rcases (Bip32.exists_child_eq_error_iff P node c).mp ⟨r, hc⟩ with hr | hr
      · left
        unfold Bip32.InRange at hr
        omega
      · exact .inr hr
    · rintro ⟨front, c, back, parent, node, hsplit, hparent, hR, hbad⟩
      have hreject : ∃ r, Bip32.child P node c = .error r := by
        refine (Bip32.exists_child_eq_error_iff P node c).mpr (hbad.imp_left ?_)
        intro hr hin
        obtain ⟨h₀, h₁⟩ := hin
        omega
      obtain ⟨r, hr⟩ := hreject
      exact ⟨_, (deriveFromSeed_eq_error_iff hseed).mpr
        ⟨front, c, back, parent, node, r, hsplit, hparent, hR, hr, rfl⟩⟩
  error_type := by
    intro e he
    obtain ⟨_, c, _, _, _, r, -, -, -, -, rfl⟩ := (deriveFromSeed_eq_error_iff hseed).mp he
    -- each reason for a rejection has a text of its own, and none is that of the second check
    cases r
    all_goals
      refine ⟨rfl, ?_⟩
      intro i h
      simp [Bip32.Reject.toPyExc] at h
  error_parsed := by
    intro s e hs he i htext
    obtain ⟨front, c, back, _, node, r, hsplit, -, -, hc, rfl⟩ :=
      (deriveFromSeed_eq_error_iff hseed).mp he
    have hin : Bip32.InRange c := DerivationPath.inRange_of_parse hs c (by rw [hsplit]; simp)
    cases r with
    | index =>
      -- a refusal for the index contradicts the range the parser checked
      rcases Bip32.child_cases P node c with ⟨hr, -⟩ | ⟨-, -, h⟩ | ⟨-, -, -, h⟩ | ⟨-, -, -, _, -, h⟩
      · exact hr hin
      all_goals cases hc.symm.trans h
    | left => simp [Bip32.Reject.toPyExc] at htext
    | zero => simp [Bip32.Reject.toPyExc] at htext
  privateKey_eq := by
    intro key hkey
    obtain ⟨⟨node, hnode, hR⟩, -⟩ := node_of_deriveFromSeed hseed hkey
    rw [hR.privateKey_eq, Bip32.scalar_of_derive hnode]
    rfl
  atPath := fun key hkey => (node_of_deriveFromSeed hseed hkey).2

theorem derivesAsBip32_toy : DerivesAsBip32 Primitives.toy ⟨[1], by simp⟩ (by decide)
    ⟨[(44, true), (0, false)]⟩ :=
  derivesAsBip32 Primitives.toy ⟨[1], by simp⟩ (by decide) ⟨[(44, true), (0, false)]⟩

end KeystoneCrypto
