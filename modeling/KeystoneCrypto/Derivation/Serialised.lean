import KeystoneCrypto.Derivation.Base58

/-!
# The shape of a serialised key

A serialised key is the numeral of 82 bytes, the first four of which are the version. The other 78
move the number by less than the version does, so the numeral has 111 digits and the first four of
them, the numeral of a quotient, depend on the version alone (`toBase58_shape`). What is needed of a
version is two inequalities between numbers, which `Leads` collects; for the two versions there are
they are computed.

All this needs a depth of one byte. `derive` counts the depth up and never looks at it, so a path
with more than 255 components leads to a key that cannot be serialised (`serialises_iff_length`).
-/

namespace KeystoneCrypto

/-! ### Length and leading symbols -/

/-- The numbers that a version followed by 78 bytes spells. -/
theorem intFromBytes_append_bounds (version : Bytes) {rest : Bytes} (hrest : rest.length = 78) :
    intFromBytes version * 256 ^ 78 ≤ intFromBytes (version ++ rest) ∧
      intFromBytes (version ++ rest) < (intFromBytes version + 1) * 256 ^ 78 := by
  have hlt : intFromBytes rest < 256 ^ rest.length := Radix.value_lt byteDigit rest
  have happ : intFromBytes (version ++ rest)
      = intFromBytes version * 256 ^ rest.length + intFromBytes rest :=
    Radix.value_append byteDigit version rest
  rw [hrest] at hlt happ
  rw [happ, Nat.add_mul, Nat.one_mul]
  exact ⟨Nat.le_add_right _ _, Nat.add_lt_add_left hlt _⟩

/-- The number that digits spell. -/
def b58Value (digits : List (Fin 58)) : ℕ := Radix.value (Equiv.refl (Fin 58)) digits

/-- All numbers that a version followed by 78 bytes spells have one quotient by `58 ^ 107`, the one
spelled by these digits. -/
structure Leads (version : Bytes) (digits : List (Fin 58)) : Prop where
  version_head : version.head? ≠ some 0
  digits_head : digits.head? ≠ some 0
  pos : 0 < b58Value digits
  lower : b58Value digits * 58 ^ 107 ≤ intFromBytes version * 256 ^ 78
  upper : (intFromBytes version + 1) * 256 ^ 78 ≤ (b58Value digits + 1) * 58 ^ 107

section Leads

variable {version rest : Bytes} {digits : List (Fin 58)} (h : Leads version digits)
include h

/-- No byte of the version is a leading zero. -/
theorem Leads.leading_eq (rest : Bytes) : Radix.leading byteDigit (version ++ rest) = 0 := by
  have hhead : (version ++ rest).head? ≠ some (Radix.zero byteDigit) := by
    cases version with
    | nil =>
      -- without a version the lower bound would be zero
      have hlower := le_trans h.lower (Nat.zero_mul _).le
      exact absurd (Nat.eq_zero_of_le_zero hlower)
        (Nat.mul_pos h.pos (Nat.pow_pos (by decide))).ne'
    | cons b version => exact h.version_head
  exact Radix.leading_replicate_append byteDigit 0 hhead

/-- **Encoding behind a version.** The symbols of the digits come first, and 107 others follow. -/
theorem Leads.exists_symbols (hrest : rest.length = 78) :
    ∃ tail, b58encode (version ++ rest) = digits.map Base58.symbol ++ tail ∧
      tail.length = 107 := by
  obtain ⟨hge, hlt⟩ := intFromBytes_append_bounds version hrest
  set n := intFromBytes (version ++ rest) with hn
  -- the quotient is squeezed between the bounds
  have hquot : n / 58 ^ 107 = b58Value digits :=
    Nat.div_eq_of_lt_le (le_trans h.lower hge) (lt_of_lt_of_le hlt h.upper)
  have hpow : 58 ^ 107 ≤ n :=
    le_trans (Nat.le_mul_of_pos_left _ h.pos) (le_trans h.lower hge)
  have hne : n ≠ 0 := (lt_of_lt_of_le (Nat.pow_pos (by decide)) hpow).ne'
  have hnumeral : Radix.numeral (Equiv.refl (Fin 58)) n
      = digits ++ Radix.digits (Equiv.refl (Fin 58)) 107 n := by
    rw [Radix.numeral_eq_append _ (by decide) hpow, hquot, b58Value,
      Radix.numeral_value _ (by decide) h.digits_head]
  have hrecode : Radix.recode byteDigit (Equiv.refl (Fin 58)) (version ++ rest)
      = Radix.numeral (Equiv.refl (Fin 58)) n := by
    rw [Radix.recode, h.leading_eq, List.replicate_zero, List.nil_append]
    rfl
  refine ⟨(Radix.digits (Equiv.refl (Fin 58)) 107 n).map Base58.symbol, ?_, ?_⟩
  · rw [b58encode_eq hne, hrecode, hnumeral, List.map_append]
  · rw [List.length_map, Radix.length_digits]

end Leads

/-- The digits of `xprv`. -/
theorem leads_mainnet : Leads [0x04, 0x88, 0xAD, 0xE4] [55, 47, 49, 53] where
  version_head := by decide
  digits_head := by decide
  pos := by decide
  lower := by decide +kernel
  upper := by decide +kernel

/-- The digits of `tprv`. -/
theorem leads_testnet : Leads [0x04, 0x35, 0x83, 0x94] [51, 47, 49, 53] where
  version_head := by decide
  digits_head := by decide
  pos := by decide
  lower := by decide +kernel
  upper := by decide +kernel

/-- A text of 111 symbols with the given start. -/
def IsSerialised (start s : PyStr) : Prop := s.length = 111 ∧ start <+: s

section Shape

variable {P : Primitives} {key : ExtendedPrivateKey}

/-- Whatever the four bytes of checksum are, the layout of a key is encoded in 111 symbols. -/
theorem isSerialised_of_leads (hshape : key.Shape) {version checksum : Bytes}
    {digits : List (Fin 58)} (h : Leads version digits) (hdigits : digits.length = 4)
    (hchecksum : checksum.length = 4) :
    IsSerialised (digits.map Base58.symbol)
      (b58encode (xprvBytes version key ++ checksum)) := by
  set rest : Bytes := [UInt8.ofNat key.depth.toNat] ++ key.parentFingerprint
    ++ Radix.digits byteDigit 4 key.childNumber.toNat ++ key.chainCode.buf ++ [0]
    ++ key.privateKey.buf ++ checksum with hrest
  have hlen : rest.length = 78 := by
    simp only [hrest, List.length_append, List.length_singleton,
      hshape.parentFingerprint_length, Radix.length_digits, hshape.chainCode_length,
      hshape.privateKey_length, hchecksum]
  -- behind the version come 74 bytes of fields and the checksum
  have heq : xprvBytes version key ++ checksum = version ++ rest := by
    simp only [xprvBytes, hrest, List.append_assoc]
  obtain ⟨tail, hsymbols, htail⟩ := h.exists_symbols hlen
  rw [heq, hsymbols]
  refine ⟨?_, tail, rfl⟩
  rw [List.length_append, List.length_map, hdigits, htail]

/-- **The shape of a serialised key.** With fields of the serialised widths and a depth of one byte
there are 111 characters on either network, and they start with the name of the format. -/
theorem toBase58_shape (P : Primitives) {key : ExtendedPrivateKey} (hshape : key.Shape)
    (h₀ : 0 ≤ key.depth) (h₁ : key.depth ≤ 255) :
    (∃ s, key.toBase58 P mainnet = .ok s ∧ IsSerialised (PyStr.ofString "xprv") s) ∧
    (∃ s, key.toBase58 P testnet = .ok s ∧ IsSerialised (PyStr.ofString "tprv") s) :=
  ⟨⟨_, toBase58_eq hshape h₀ h₁ rfl,
      isSerialised_of_leads hshape leads_mainnet rfl (length_checksumBytes P _)⟩,
    ⟨_, toBase58_eq hshape h₀ h₁ rfl,
      isSerialised_of_leads hshape leads_testnet rfl (length_checksumBytes P _)⟩⟩

theorem toBase58_shape_toyMaster :
    (∃ s, toyMaster.toBase58 Primitives.toy mainnet = .ok s ∧
      IsSerialised (PyStr.ofString "xprv") s) ∧
    (∃ s, toyMaster.toBase58 Primitives.toy testnet = .ok s ∧
      IsSerialised (PyStr.ofString "tprv") s) :=
  toBase58_shape Primitives.toy toyMaster_derived.shape.1 (by decide) (by decide)

/-! ### Deep keys -/

/-- The key can be serialised for both networks. -/
def ExtendedPrivateKey.Serialises (P : Primitives) (key : ExtendedPrivateKey) : Prop :=
  (∃ s, key.toBase58 P mainnet = .ok s) ∧ ∃ s, key.toBase58 P testnet = .ok s

/-- A depth of more than one byte is refused, for every network there is. -/
theorem toBase58_of_deep (h : 255 < key.depth) {network : PyStr} {version : Bytes}
    (hversion : networkVersion network = .ok version) :
    key.toBase58 P network
      = .error ⟨.valueError, [.foreign "bytes must be in range(0, 256)"]⟩ := by
  -- `bytes([depth])` is evaluated after the version has been looked up
  unfold ExtendedPrivateKey.toBase58 bytesOfInt
  rw [hversion, Effect.ok_bind, raiseIf_pos (.inr (by omega))]
  rfl

theorem serialises_iff_depth (hshape : key.Shape) (h₀ : 0 ≤ key.depth) :
    key.Serialises P ↔ key.depth ≤ 255 := by
  refine ⟨?_, ?_⟩
  · rintro ⟨⟨s, hs⟩, -⟩
    by_contra hdeep
    cases hs.symm.trans (toBase58_of_deep (Int.not_le.mp hdeep) rfl)
  · intro h₁
    exact ⟨⟨_, toBase58_eq hshape h₀ h₁ rfl⟩, ⟨_, toBase58_eq hshape h₀ h₁ rfl⟩⟩

/-- A derived key can be serialised exactly if its path is short enough. -/
theorem serialises_of_deriveFromSeed {seed : SecretBytes} {path : DerivationPath}
    (h : deriveFromSeed P seed path = .ok key) :
    key.Serialises P ↔ path.indices.length ≤ 255 := by
  obtain ⟨hshape, hdepth⟩ := shape_of_deriveFromSeed h
  rw [serialises_iff_depth hshape (by omega), hdepth]
  omega

/-- **Which paths lead to serialisable keys.** A key derived along a parsed path can be serialised
exactly if the path has at most 255 components; and derivation along longer paths is not refused. -/
theorem serialises_iff_length {s : PyStr} {path : DerivationPath}
    (hparse : DerivationPath.parse s = .ok path) :
    (∀ P seed key, deriveFromSeed P seed path = .ok key →
      (key.Serialises P ↔ path.indices.length ≤ 255)) ∧
    ((∀ P seed key, deriveFromSeed P seed path = .ok key → key.Serialises P) ↔
      path.indices.length ≤ 255) := by
  refine ⟨fun P seed key hkey => serialises_of_deriveFromSeed hkey, ?_, ?_⟩
  · intro h
    -- there is an HMAC with which the path is walked to its end
    obtain ⟨key, hkey, -⟩ := exists_derive_marking Primitives.toy ⟨[1], by simp⟩
      (DerivationPath.inRange_of_parse hparse)
    exact (serialises_of_deriveFromSeed hkey).mp (h _ _ key hkey)
  · intro hlen P seed key hkey
    exact (serialises_of_deriveFromSeed hkey).mpr hlen

/-- The path `m/0`. -/
theorem serialises_iff_length_firstChild :
    (∀ P seed key, deriveFromSeed P seed ⟨[(0, false)]⟩ = .ok key →
      (key.Serialises P ↔ [((0 : ℤ), false)].length ≤ 255)) ∧
    ((∀ P seed key, deriveFromSeed P seed ⟨[(0, false)]⟩ = .ok key → key.Serialises P) ↔
      [((0 : ℤ), false)].length ≤ 255) :=
  serialises_iff_length (s := PyStr.ofString "m/0") (by decide)

/-- `m` and 256 times `/0`. -/
def deepPath : PyStr :=
  PyStr.ofString "m" ++ (List.replicate 256 (PyStr.ofString "/0")).flatten

/-- **One step too deep.** The path parses and leads to a key, which neither network can
serialise. -/
theorem deepPath_not_serialised :
    DerivationPath.parse deepPath = .ok ⟨List.replicate 256 (0, false)⟩ ∧
    ∃ key, deriveFromSeed Primitives.toy.marking ⟨[1], by simp⟩ ⟨List.replicate 256 (0, false)⟩
        = .ok key ∧
      key.toBase58 Primitives.toy.marking mainnet
        = .error ⟨.valueError, [.foreign "bytes must be in range(0, 256)"]⟩ ∧
      key.toBase58 Primitives.toy.marking testnet
        = .error ⟨.valueError, [.foreign "bytes must be in range(0, 256)"]⟩ := by
  have hpath : ∀ c ∈ List.replicate 256 ((0 : ℤ), false), Bip32.InRange c := by
    intro c hc
    rw [List.eq_of_mem_replicate hc]
    decide
  obtain ⟨key, hkey, -⟩ : ∃ key, deriveFromSeed Primitives.toy.marking ⟨[1], by simp⟩
      ⟨List.replicate 256 (0, false)⟩ = .ok key ∧ intFromBytes key.privateKey.buf = 1 :=
    exists_derive_marking Primitives.toy ⟨[1], by simp⟩ hpath
  have hdeep : 255 < key.depth := by
    rw [(shape_of_deriveFromSeed hkey).2, List.length_replicate]
    decide
  exact ⟨by decide +kernel, key, hkey, toBase58_of_deep hdeep rfl, toBase58_of_deep hdeep rfl⟩

end Shape

end KeystoneCrypto
