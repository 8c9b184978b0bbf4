import KeystoneCrypto.Derivation.Keys

/-!
# The HMAC messages of derivation

The last four bytes of a message are the child number, and different components have different
ones, so no two siblings share a message (`childData_separates`). Children of one parent are the two
halves of the HMAC, the left one shifted by the key of the parent (`halves_of_derive`). The shift can
be undone modulo the group order, below which both left halves are, so where two children coincide,
two different messages have one HMAC (`hmac_eq_of_derive`). In a hardened message the private key of
the parent stands in front of the child number and can be read off too.
-/

namespace KeystoneCrypto

section Messages

variable {P : Primitives} {key key' : ExtendedPrivateKey} {node : Bip32.Node}

/-- What a child takes from the HMAC: the key is the left half plus the scalar of the parent, and
the chain code is the right half. -/
theorem halves_of_derive (h : key.Refines node) {c : ℤ × Bool} (hc : Bip32.InRange c)
    {child : ExtendedPrivateKey} (hchild : key.derive P c.1 c.2 = .ok child) :
    Bip32.left P node c < groupOrder ∧
      intFromBytes child.privateKey.buf = (Bip32.left P node c + node.scalar) % groupOrder ∧
      child.chainCode.buf = Bip32.right P node c := by
  -- a key was returned, so neither `derive` nor the step of BIP-32 was refused
  rcases derive_spec (P := P) h c with ⟨r, -, herror⟩ | ⟨node', key', hnode, hok, hR, -⟩
  · cases hchild.symm.trans herror
  · cases hchild.symm.trans hok
    rcases Bip32.child_cases P node c with ⟨hr, -⟩ | ⟨-, -, h'⟩ | ⟨-, -, -, h'⟩ |
      ⟨-, hl, -, k, hk, h'⟩
    · exact absurd hc hr
    · cases hnode.symm.trans h'
    · cases hnode.symm.trans h'
    · cases hnode.symm.trans h'
      refine ⟨hl, ?_, hR.chainCode_eq⟩
      rw [hR.privateKey_eq, intFromBytes_ser256, hk]

/-- **Equal children** come from equal HMACs. -/
theorem hmac_eq_of_derive (h : key.Refines node) {c c' : ℤ × Bool} (hc : Bip32.InRange c)
    (hc' : Bip32.InRange c') {child child' : ExtendedPrivateKey}
    (hchild : key.derive P c.1 c.2 = .ok child) (hchild' : key.derive P c'.1 c'.2 = .ok child')
    (hkey : child.privateKey = child'.privateKey) (hchain : child.chainCode = child'.chainCode) :
    P.hmacSha512 key.chainCode.buf (Bip32.message P node c)
      = P.hmacSha512 key.chainCode.buf (Bip32.message P node c') := by
  obtain ⟨hl, hsum, hr⟩ := halves_of_derive h hc hchild
  obtain ⟨hl', hsum', hr'⟩ := halves_of_derive h hc' hchild'
  rw [h.chainCode_eq]
  -- adding one scalar does not identify two residues
  have hmod : (Bip32.left P node c + node.scalar) % groupOrder
      = (Bip32.left P node c' + node.scalar) % groupOrder := by
    rw [← hsum, ← hsum', hkey]
  have hleft : Bip32.left P node c = Bip32.left P node c' := by
    have hcancel := Nat.ModEq.add_right_cancel' _ hmod
    unfold Nat.ModEq at hcancel
    rwa [Nat.mod_eq_of_lt hl, Nat.mod_eq_of_lt hl'] at hcancel
  have hlen := (hmac_halves_length P node.chain (Bip32.message P node c)).1
  have hlen' := (hmac_halves_length P node.chain (Bip32.message P node c')).1
  -- numbers of as many digits are equal only if the digits are
  have htake := Radix.value_inj byteDigit (hlen.trans hlen'.symm) hleft
  have hdrop : Bip32.right P node c = Bip32.right P node c' := by rw [← hr, ← hr', hchain]
  calc P.hmacSha512 node.chain (Bip32.message P node c)
      = (P.hmacSha512 node.chain (Bip32.message P node c)).take 32 ++ Bip32.right P node c :=
        (List.take_append_drop 32 _).symm
    _ = (P.hmacSha512 node.chain (Bip32.message P node c')).take 32 ++ Bip32.right P node c' := by
        rw [htake, hdrop]
    _ = P.hmacSha512 node.chain (Bip32.message P node c') := List.take_append_drop 32 _

/-- **Messages are not shared.** A child of a valid key is made of the two halves of the HMAC of its
message. Different requests have different messages of 37 bytes, and if their children coincide, the
HMAC does on these two. Hardened messages differ as soon as the private keys of the parents or the
indices do. -/
theorem childData_separates (P : Primitives) {key : ExtendedPrivateKey}
    (hlen : key.privateKey.buf.length = 32) (hvalid : key.Valid) :
    (∀ c child, Bip32.InRange c → key.derive P c.1 c.2 = .ok child →
      ∃ d, key.childData P (Bip32.childNumber c) = .ok d ∧
        intFromBytes child.privateKey.buf =
          (intFromBytes ((P.hmacSha512 key.chainCode.buf d).take 32)
            + intFromBytes key.privateKey.buf) % groupOrder ∧
        child.chainCode.buf = (P.hmacSha512 key.chainCode.buf d).drop 32) ∧
    (∀ c c', Bip32.InRange c → Bip32.InRange c' → c ≠ c' →
      ∃ d d', key.childData P (Bip32.childNumber c) = .ok d ∧
        key.childData P (Bip32.childNumber c') = .ok d' ∧
        d.length = 37 ∧ d'.length = 37 ∧ d ≠ d' ∧
        ∀ child child', key.derive P c.1 c.2 = .ok child →
          key.derive P c'.1 c'.2 = .ok child' → child.privateKey = child'.privateKey →
          child.chainCode = child'.chainCode →
          P.hmacSha512 key.chainCode.buf d = P.hmacSha512 key.chainCode.buf d') ∧
    (∀ (key' : ExtendedPrivateKey) (i i' : ℤ), Bip32.InRange (i, true) →
      Bip32.InRange (i', true) → (key.privateKey.buf, i) ≠ (key'.privateKey.buf, i') →
      ∃ d d', key.childData P (Bip32.childNumber (i, true)) = .ok d ∧
        key'.childData P (Bip32.childNumber (i', true)) = .ok d' ∧ d ≠ d') := by
  obtain ⟨node, hnode⟩ := ExtendedPrivateKey.exists_refines hlen hvalid
  refine ⟨?_, ?_, ?_⟩
  · intro c child hc hchild
    obtain ⟨-, hkey, hchain⟩ := halves_of_derive hnode hc hchild
    refine ⟨_, childData_eq hnode hc, ?_, ?_⟩
    · rw [hkey, hnode.chainCode_eq, hnode.privateKey_eq, intFromBytes_ser256]
      rfl
    · rw [hchain, hnode.chainCode_eq]
      rfl
  · intro c c' hc hc' hne
    refine ⟨_, _, childData_eq hnode hc, childData_eq hnode hc', Bip32.length_message P node c,
      Bip32.length_message P node c', fun h => hne (Bip32.message_inj P node c hc hc' h), ?_⟩
    intro child child' hchild hchild' hkey hchain
    exact hmac_eq_of_derive hnode hc hc' hchild hchild' hkey hchain
  · intro key' i i' hi hi' hne
    refine ⟨_, _, childData_hardened hi, childData_hardened hi', fun h => hne ?_⟩
    -- the child number has a fixed width
    obtain ⟨hzero, hser⟩ := List.append_inj' h
      ((Radix.length_digits _ _ _).trans (Radix.length_digits _ _ _).symm)
    have hkey := List.append_cancel_left hzero
    have hindex := Bip32.ser32_childNumber_inj hi hi' hser
    rw [hkey, (Prod.mk.inj hindex).1]

end Messages

/-- The private key 1. -/
def unitKey : ExtendedPrivateKey where
  privateKey := ⟨Radix.digits byteDigit 32 1, ser256_ne_nil 1⟩
  chainCode := ⟨Radix.digits byteDigit 32 0, ser256_ne_nil 0⟩
  depth := 0
  parentFingerprint := [0, 0, 0, 0]
  childNumber := 0

/-- Its first two children, and its first two hardened children. -/
theorem childData_separates_unitKey :
    (∃ child d, unitKey.derive Primitives.toy 0 true = .ok child ∧
      unitKey.childData Primitives.toy (Bip32.childNumber (0, true)) = .ok d ∧
      intFromBytes child.privateKey.buf =
        (intFromBytes ((Primitives.toy.hmacSha512 unitKey.chainCode.buf d).take 32)
          + intFromBytes unitKey.privateKey.buf) % groupOrder ∧
      child.chainCode.buf = (Primitives.toy.hmacSha512 unitKey.chainCode.buf d).drop 32) ∧
    (∃ d d', unitKey.childData Primitives.toy (Bip32.childNumber (0, false)) = .ok d ∧
      unitKey.childData Primitives.toy (Bip32.childNumber (0, true)) = .ok d' ∧
      d.length = 37 ∧ d'.length = 37 ∧ d ≠ d' ∧
      ∀ child child', unitKey.derive Primitives.toy 0 false = .ok child →
        unitKey.derive Primitives.toy 0 true = .ok child' →
        child.privateKey = child'.privateKey → child.chainCode = child'.chainCode →
        Primitives.toy.hmacSha512 unitKey.chainCode.buf d
          = Primitives.toy.hmacSha512 unitKey.chainCode.buf d') ∧
    (∃ d d', unitKey.childData Primitives.toy (Bip32.childNumber (0, true)) = .ok d ∧
      unitKey.childData Primitives.toy (Bip32.childNumber (1, true)) = .ok d' ∧ d ≠ d') := by
  obtain ⟨hhalves, hsibling, hhardened⟩ := childData_separates Primitives.toy
    (show unitKey.privateKey.buf.length = 32 by decide)
    (show 0 < intFromBytes unitKey.privateKey.buf ∧
      intFromBytes unitKey.privateKey.buf < groupOrder by decide)
  obtain ⟨child, hchild⟩ : ∃ child, unitKey.derive Primitives.toy 0 true = .ok child :=
    Effect.isOk_iff.mp (by decide +kernel)
  obtain ⟨d, hd, hkey, hchain⟩ := hhalves (0, true) child (by decide) hchild
  exact ⟨⟨child, d, hchild, hd, hkey, hchain⟩,
    hsibling (0, false) (0, true) (by decide) (by decide) (by decide),
    hhardened unitKey 0 1 (by decide) (by decide) (by decide)⟩

end KeystoneCrypto
