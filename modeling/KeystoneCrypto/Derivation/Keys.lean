import KeystoneCrypto.Derivation.Runs

/-!
# The keys that leave derivation

Every key `derive_from_seed` returns has fields of the widths its serialisation expects
(`shape_of_deriveFromSeed`). This is an invariant of the walk, together with the depth, which counts
the steps taken: the master key has it, and `derive` gives it to a child whatever the parent was.

The private key of a child is a scalar in `[1, n - 1]`, because `derive` checks the sum; the master
key is taken from the HMAC as it comes. A step from an invalid master key fails, since the
fingerprint of the parent is computed with coincurve, but the empty path takes no step. So an
invalid key comes out exactly for the empty path and a seed that BIP-32 does not admit
(`deriveFromSeed_valid_iff`).
-/

namespace KeystoneCrypto

namespace ExtendedPrivateKey

/-- The private key is a scalar in `[1, n - 1]`. -/
def Valid (key : ExtendedPrivateKey) : Prop :=
  0 < intFromBytes key.privateKey.buf ∧ intFromBytes key.privateKey.buf < groupOrder

/-- The widths of the fields. -/
structure Shape (key : ExtendedPrivateKey) : Prop where
  privateKey_length : key.privateKey.buf.length = 32
  chainCode_length : key.chainCode.buf.length = 32
  parentFingerprint_length : key.parentFingerprint.length = 4
  childNumber_nonneg : 0 ≤ key.childNumber
  childNumber_lt : key.childNumber < 2 ^ 32

theorem Refines.valid {key : ExtendedPrivateKey} {node : Bip32.Node} (h : key.Refines node) :
    key.Valid := by
  unfold Valid
  rw [h.privateKey_eq, intFromBytes_ser256]
  exact node.scalar.2

/-- Conversely a valid key of 32 bytes holds a node. -/
theorem exists_refines {key : ExtendedPrivateKey} (hlen : key.privateKey.buf.length = 32)
    (h : key.Valid) : ∃ node, key.Refines node := by
  have hdigits := Radix.digits_value byteDigit key.privateKey.buf
  rw [hlen] at hdigits
  exact ⟨⟨⟨intFromBytes key.privateKey.buf, h⟩, key.chainCode.buf⟩, hdigits.symm, rfl⟩

end ExtendedPrivateKey

section Keys

variable {P : Primitives} {seed : SecretBytes} {path : DerivationPath} {key : ExtendedPrivateKey}

theorem shape_of_master (h : ExtendedPrivateKey.master P seed = .ok key) :
    key.Shape ∧ key.depth = 0 := by
  obtain ⟨hleft, hright⟩ := hmac_halves_length P (Bytes.ofString "Bitcoin seed") seed.buf
  unfold ExtendedPrivateKey.master at h
  obtain ⟨sk, hsk, h⟩ := Effect.bind_eq_ok_iff.mp h
  obtain ⟨cc, hcc, h⟩ := Effect.bind_eq_ok_iff.mp h
  rw [← SecretBytes.new_eq_ok_iff.mp hsk] at hleft
  rw [← SecretBytes.new_eq_ok_iff.mp hcc] at hright
  rw [← Except.ok.inj h]
  exact ⟨⟨hleft, hright, rfl, le_rfl, by norm_num⟩, rfl⟩

/-- A step checks the effective index and writes every field in its width. -/
theorem shape_of_derive {parent : ExtendedPrivateKey} {i : ℤ} {hardened : Bool}
    (h : parent.derive P i hardened = .ok key) : key.Shape ∧ key.depth = parent.depth + 1 := by
  -- the steps of `derive`; only the effective index, the HMAC and the three widths matter here
  unfold ExtendedPrivateKey.derive at h
  simp only [Effect.bind_eq_ok_iff] at h
  obtain ⟨_, -, _, hindex, data, -, _, -, _, -, childKey, hchild, sk, hsk, cc, hcc, finger, hfinger,
    h⟩ := h
  have hright := (hmac_halves_length P parent.chainCode.buf data).2
  rw [← SecretBytes.new_eq_ok_iff.mp hcc] at hright
  have hkey : sk.buf.length = 32 := by
    -- `to_bytes(32)` writes 32 digits whatever the sum is
    unfold intToBytes at hchild
    obtain ⟨_, -, hchild⟩ := Effect.bind_eq_ok_iff.mp hchild
    rw [SecretBytes.new_eq_ok_iff.mp hsk, ← Except.ok.inj hchild, Radix.length_digits]
  have hfour : finger.length = 4 := by
    unfold ExtendedPrivateKey.fingerprint at hfinger
    obtain ⟨k, -, hfinger⟩ := Effect.bind_eq_ok_iff.mp hfinger
    rw [← Except.ok.inj hfinger, List.length_take, P.ripemd160_length]
    rfl
  have hrange := raiseIf_eq_ok_iff.mp hindex
  unfold maxChildIndex at hrange
  rw [← Except.ok.inj h]
  refine ⟨⟨hkey, hright, hfour, ?_, ?_⟩, rfl⟩
  -- the child number is the effective index, which was checked
  · change 0 ≤ (if hardened then i + hardenedOffset else i)
    omega
  · change (if hardened then i + hardenedOffset else i) < 2 ^ 32
    omega

/-- **Widths.** A derived key has fields of the serialised widths, and its depth is the length of
its path. -/
theorem shape_of_deriveFromSeed (h : deriveFromSeed P seed path = .ok key) :
    key.Shape ∧ key.depth = path.indices.length := by
  unfold deriveFromSeed at h
  obtain ⟨root, hroot, hwalk⟩ := Effect.bind_eq_ok_iff.mp h
  refine Walk.walk_induction (I := fun l key => key.Shape ∧ key.depth = (l.length : ℤ)) ?_ ?_ hwalk
  -- the depth counts the steps, so the invariant names the length of the path walked
  · exact shape_of_master hroot
  · intro l c parent child hl hparent hstep
    obtain ⟨hshape, hdepth⟩ := shape_of_derive hstep
    refine ⟨hshape, ?_⟩
    rw [hdepth, hparent.2, List.length_append, List.length_singleton]
    push_cast
    rfl

/-! ### Invalid keys -/

/-- **When only valid keys come out.** Either the path takes a step, or the master scalar is
valid. -/
theorem deriveFromSeed_valid_iff (P : Primitives) (seed : SecretBytes) (path : DerivationPath) :
    (∀ key, deriveFromSeed P seed path = .ok key → key.Valid) ↔
      path.indices ≠ [] ∨ Bip32.ValidSeed P seed.buf := by
  refine ⟨?_, ?_⟩
  · intro h
    refine or_iff_not_imp_left.mpr ?_
    intro hpath
    rw [ne_eq, not_not] at hpath
    -- the empty path always returns the master key
    obtain ⟨root, hroot, -⟩ := exists_master P seed
    have hderive : deriveFromSeed P seed path = .ok root := by
      rw [deriveFromSeed_eq hroot, hpath, Walk.walk_nil]
    have hvalid := h root hderive
    unfold ExtendedPrivateKey.Valid at hvalid
    rwa [intFromBytes_of_master hroot] at hvalid
  · intro h key hderive
    -- a step computes the fingerprint of its parent, which needs a valid private key
    have hseed : Bip32.ValidSeed P seed.buf := by
      rcases h with hpath | hseed
      · exact validSeed_of_deriveFromSeed hpath hderive
      · exact hseed
    obtain ⟨⟨node, -, hR⟩, -⟩ := node_of_deriveFromSeed hseed hderive
    exact hR.valid

end Keys

/-! ### An HMAC under which no step is refused -/

/-- Under the key of BIP-32 the left half of this HMAC is one; everything else is zero. -/
def markingHmac (k _b : Bytes) : Bytes :=
  Radix.digits byteDigit 32 (if k = Bytes.ofString "Bitcoin seed" then 1 else 0)
    ++ List.replicate 32 0

theorem length_markingHmac (k b : Bytes) : (markingHmac k b).length = 64 := by
  unfold markingHmac
  rw [List.length_append, Radix.length_digits, List.length_replicate]

/-- The same primitives with this HMAC. -/
def Primitives.marking (P : Primitives) : Primitives := P.withHmac markingHmac length_markingHmac

section Marking

variable (P : Primitives)

/-- Under other keys both halves are zero. -/
theorem halves_marking {k : Bytes} (h : k ≠ Bytes.ofString "Bitcoin seed") (b : Bytes) :
    (P.marking.hmacSha512 k b).take 32 = List.replicate 32 0 ∧
      (P.marking.hmacSha512 k b).drop 32 = List.replicate 32 0 := by
  change (markingHmac k b).take 32 = _ ∧ (markingHmac k b).drop 32 = _
  unfold markingHmac
  rw [if_neg h]
  exact ⟨rfl, rfl⟩

/-- A step of BIP-32 adds zero. -/
theorem exists_child_marking {n : Bip32.Node} {c : ℤ × Bool} (hc : Bip32.InRange c)
    (hn : (n.scalar : ℕ) = 1) (hchain : n.chain = List.replicate 32 0) :
    ∃ m, Bip32.child P.marking n c = .ok m ∧ (m.scalar : ℕ) = 1 ∧
      m.chain = List.replicate 32 0 := by
  obtain ⟨htake, hdrop⟩ := halves_marking P (k := n.chain) (by rw [hchain]; decide)
    (Bip32.message P.marking n c)
  have hleft : Bip32.left P.marking n c = 0 := by
    unfold Bip32.left
    rw [htake]
    rfl
  have hright : Bip32.right P.marking n c = List.replicate 32 0 := hdrop
  have hsum : (Bip32.left P.marking n c + n.scalar) % groupOrder = 1 := by
    rw [hleft, hn]
    rfl
  rcases Bip32.child_cases P.marking n c with ⟨hr, -⟩ | ⟨-, hl, -⟩ | ⟨-, -, hz, -⟩ |
    ⟨-, -, -, k, hk, hchild⟩
  -- none of the three guards can refuse
  · exact absurd hc hr
  · rw [hleft] at hl
    exact absurd hl (by decide)
  · rw [hsum] at hz
    exact absurd hz (by decide)
  · rw [hright] at hchild
    exact ⟨_, hchild, hk.trans hsum, rfl⟩

theorem exists_walk_marking {path : List (ℤ × Bool)} (hpath : ∀ c ∈ path, Bip32.InRange c)
    {n : Bip32.Node} (hn : (n.scalar : ℕ) = 1) (hchain : n.chain = List.replicate 32 0) :
    ∃ m, Bip32.derive P.marking n path = .ok m ∧ (m.scalar : ℕ) = 1 := by
  induction path generalizing n with
  | nil => exact ⟨n, rfl, hn⟩
  -- the scalar stays one and the chain code stays zero, which is what the next step needs
  | cons c path ih =>
    obtain ⟨m, hchild, hm, hmchain⟩ :=
      exists_child_marking P (hpath c List.mem_cons_self) hn hchain
    obtain ⟨m', hwalk, hm'⟩ := ih (fun d hd => hpath d (List.mem_cons_of_mem c hd)) hm hmchain
    refine ⟨m', ?_, hm'⟩
    unfold Bip32.derive at hwalk ⊢
    rw [Walk.walk_cons, hchild]
    exact hwalk

/-- Under BIP-32 every path of 31-bit indices leads to the scalar one. -/
theorem exists_derive_marking (seed : SecretBytes) {path : DerivationPath}
    (hpath : ∀ c ∈ path.indices, Bip32.InRange c) :
    ∃ key, deriveFromSeed P.marking seed path = .ok key ∧
      intFromBytes key.privateKey.buf = 1 := by
  have hleft : Bip32.masterLeft P.marking seed.buf = 1 := by
    change intFromBytes ((markingHmac (Bytes.ofString "Bitcoin seed") seed.buf).take 32) = 1
    unfold markingHmac
    rw [if_pos rfl]
    rfl
  have hright : (P.marking.hmacSha512 (Bytes.ofString "Bitcoin seed") seed.buf).drop 32
      = List.replicate 32 0 := by
    change (markingHmac (Bytes.ofString "Bitcoin seed") seed.buf).drop 32 = _
    unfold markingHmac
    exact List.drop_left' (Radix.length_digits byteDigit 32 _)
  have hvalid : Bip32.ValidSeed P.marking seed.buf := by
    unfold Bip32.ValidSeed
    rw [hleft]
    decide
  obtain ⟨node, hnode, hone⟩ := exists_walk_marking P hpath
    (n := Bip32.master P.marking seed.buf hvalid) hleft hright
  obtain ⟨key, hkey, hR⟩ := deriveFromSeed_of_derive hvalid hnode
  refine ⟨key, hkey, ?_⟩
  rw [hR.privateKey_eq, intFromBytes_ser256, hone]

end Marking

/-! ### A zero key -/

/-- `toy` with an HMAC of zeros. -/
def Primitives.zeroHmac : Primitives :=
  Primitives.toy.withHmac (fun _ _ => List.replicate 64 0) fun _ _ => List.length_replicate

/-- **A zero key.** Where the HMAC of the seed starts with 32 zero bytes, the path `m` yields the
private key 0. -/
theorem zero_key_derived : DerivationPath.parse (PyStr.ofString "m") = .ok ⟨[]⟩ ∧
    ∃ key, deriveFromSeed Primitives.zeroHmac ⟨[1], by simp⟩ ⟨[]⟩ = .ok key ∧
      intFromBytes key.privateKey.buf = 0 ∧ ¬ key.Valid := by
  refine ⟨by decide, ⟨⟨List.replicate 32 0, by simp⟩, ⟨List.replicate 32 0, by simp⟩, 0,
    [0, 0, 0, 0], 0⟩, rfl, rfl, ?_⟩
  rintro ⟨hpos, -⟩
  exact absurd hpos (by decide)

end KeystoneCrypto
