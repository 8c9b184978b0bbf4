import KeystoneCrypto.Derivation.Keys
import KeystoneCrypto.Lib.Numeral

/-!
# Serialised keys

`_b58encode` writes the digits of a number as repeated division yields them, then a `1` for each
leading zero byte, and reverses the whole. That is a change of base which keeps leading zeros
(`b58encode_eq`), so the decoder `Base58.decode`, the change of base the other way, gives the bytes
back. The exception are strings of zero bytes only, for which the encoder has a branch of its own.

`toBase58` hands the encoder a string that starts with a version byte of `4`. The decoder therefore
returns the 78 bytes of the BIP-32 layout and the checksum, and since all fields have fixed widths,
the string determines key and network (`toBase58_decodes`). The two loops of the encoder are matched
with the two parts of a change of base, one by induction on the number, the other on the bytes.
-/

namespace KeystoneCrypto

-- the base of the symbols, as `Radix` refers to it
instance instNeZeroSymbolBase : NeZero 58 := ⟨by decide⟩

/-! ### The reference decoder -/

namespace Base58

/-- The symbols in the order of their values. -/
def alphabet : PyStr :=
  PyStr.ofString "123456789ABCDEFGHJKLMNPQRSTUVWXYZabcdefghijkmnopqrstuvwxyz"

/-- The symbol of a value. -/
def symbol (i : Fin 58) : CodePoint := alphabet.getD i 0

/-- The value of a symbol. -/
def symbolValue (c : CodePoint) : Option (Fin 58) := (List.finRange 58).find? (symbol · == c)

/-- Symbols read as digits of the base 58; leading ones are leading zero bytes. -/
def decode (s : PyStr) : Option Bytes :=
  (s.mapM symbolValue).map (Radix.recode (Equiv.refl (Fin 58)) byteDigit)

/-- The decoded bytes, if the last four are the checksum of the others. -/
def decodeCheck (P : Primitives) (s : PyStr) : Option Bytes := do
  let raw ← decode s
  let n := raw.length - 4
  if (P.sha256 (P.sha256 (raw.take n))).take 4 = raw.drop n then some raw else none

theorem symbolValue_symbol (i : Fin 58) : symbolValue (symbol i) = some i := by
  revert i
  decide +kernel

theorem decode_map_symbol (l : List (Fin 58)) :
    decode (l.map symbol) = some (Radix.recode (Equiv.refl (Fin 58)) byteDigit l) := by
  have hmap : (l.map symbol).mapM symbolValue = some l := by
    induction l with
    | nil => rfl
    | cons i l ih =>
      rw [List.map_cons, List.mapM_cons, symbolValue_symbol, ih]
      rfl
  rw [decode, hmap, Option.map_some]

end Base58

/-! ### The encoder -/

/-- The byte the encoder writes for a digit. -/
def b58Byte (i : Fin 58) : UInt8 := b58Alphabet.getD i 0

theorem decodeAscii_b58Byte (l : List (Fin 58)) :
    decodeAscii (l.map b58Byte) = l.map Base58.symbol := by
  have h : ∀ i, Fin.ofNat 0x110000 (b58Byte i).toNat = Base58.symbol i := by decide +kernel
  rw [decodeAscii, List.map_map]
  exact List.map_congr_left fun i _ => h i

/-- The division loop writes the numeral backwards. -/
theorem b58Digits_eq (n : ℕ) (out : Bytes) : b58Digits n out
    = out ++ ((Radix.numeral (Equiv.refl (Fin 58)) n).map b58Byte).reverse := by
  induction n using Nat.strong_induction_on generalizing out with
  | _ n ih =>
    rw [b58Digits]
    by_cases hn : n = 0
    · rw [dif_pos hn, hn, Radix.numeral_zero, List.map_nil, List.reverse_nil, List.append_nil]
    · have hpos := Nat.pos_of_ne_zero hn
      -- the remainder written now is the last digit of the numeral
      rw [dif_neg hn, ih _ (Nat.div_lt_self hpos (by decide)),
        Radix.numeral_of_pos _ (by decide) hpos, List.map_append, List.reverse_append,
        List.append_assoc]
      rfl

/-- The loop over the leading zeros writes one symbol for each. -/
theorem b58Zeros_eq (data out : Bytes) :
    b58Zeros data out = out ++ List.replicate (Radix.leading byteDigit data) (b58Byte 0) := by
  induction data generalizing out with
  | nil => exact (List.append_nil out).symm
  | cons b data ih =>
    rw [b58Zeros, Radix.leading]
    by_cases hb : b = 0
    · have hzero : Radix.isZero byteDigit b = true := (Radix.isZero_eq_true_iff byteDigit).mpr hb
      rw [if_pos hb, ih, List.takeWhile_cons_of_pos hzero, List.length_cons, List.replicate_succ,
        List.append_assoc]
      rfl
    · have hzero : ¬ Radix.isZero byteDigit b = true := fun h =>
        hb ((Radix.isZero_eq_true_iff byteDigit).mp h)
      rw [if_neg hb, List.takeWhile_cons_of_neg hzero]
      exact (List.append_nil out).symm

/-- **The encoder changes the base** of a string that is not all zeros, and keeps its leading
zeros. -/
theorem b58encode_eq {data : Bytes} (h : intFromBytes data ≠ 0) : b58encode data
    = (Radix.recode byteDigit (Equiv.refl (Fin 58)) data).map Base58.symbol := by
  unfold b58encode
  simp only
  rw [if_neg h, b58Zeros_eq, b58Digits_eq, List.nil_append, List.reverse_append,
    List.reverse_reverse, List.reverse_replicate, ← decodeAscii_b58Byte, Radix.recode,
    List.map_append, List.map_replicate]
  rfl

/-- **Decoding undoes encoding** where the number is not zero. -/
theorem decode_b58encode {data : Bytes} (h : intFromBytes data ≠ 0) :
    Base58.decode (b58encode data) = some data := by
  rw [b58encode_eq h, Base58.decode_map_symbol,
    Radix.recode_recode byteDigit _ (by decide) (by decide)]

/-- Strings of zeros all become one symbol, which is one zero byte to the decoder. -/
theorem decode_b58encode_of_eq_zero {data : Bytes} (h : intFromBytes data = 0) :
    Base58.decode (b58encode data) = some [0] := by
  -- the encoder has a branch of its own for the number zero
  have hone : b58encode data = [(0 : Fin 58)].map Base58.symbol := by
    unfold b58encode
    simp only
    rw [if_pos h]
    exact decodeAscii_b58Byte [0]
  rw [hone, Base58.decode_map_symbol]
  rfl

theorem intFromBytes_eq_zero_iff {data : Bytes} : intFromBytes data = 0 ↔ ∀ b ∈ data, b = 0 :=
  Radix.value_eq_zero_iff byteDigit

/-- **When the encoder is Base58.** Decoding returns the data exactly if a byte of it is not zero or
it is one zero byte, and exactly in the first of these cases no other data has the same encoding. -/
theorem b58encode_lossless_iff (data : Bytes) :
    (Base58.decode (b58encode data) = some data ↔ (∃ b ∈ data, b ≠ 0) ∨ data = [0]) ∧
    ((∀ data', b58encode data' = b58encode data → data' = data) ↔ ∃ b ∈ data, b ≠ 0) := by
  by_cases hzero : intFromBytes data = 0
  · have hnone : ¬ ∃ b ∈ data, b ≠ 0 := by
      rintro ⟨b, hb, hne⟩
      exact hne (intFromBytes_eq_zero_iff.mp hzero b hb)
    refine ⟨?_, iff_of_false (fun hinj => ?_) hnone⟩
    · rw [decode_b58encode_of_eq_zero hzero, or_iff_right hnone, Option.some.injEq, eq_comm]
    · -- no bytes and one zero byte are written alike, so both would be the data
      have hsame : ∀ data', intFromBytes data' = 0 → data' = data := fun data' h' =>
        hinj data' (by unfold b58encode; simp only; rw [if_pos h', if_pos hzero])
      cases (hsame [] rfl).trans (hsame [0] rfl).symm
  · have hsome : ∃ b ∈ data, b ≠ 0 := by
      by_contra hnone
      push Not at hnone
      exact hzero (intFromBytes_eq_zero_iff.mpr hnone)
    refine ⟨iff_of_true (decode_b58encode hzero) (.inl hsome),
      iff_of_true (fun data' h' => ?_) hsome⟩
    have hdecode := decode_b58encode hzero
    rw [← h'] at hdecode
    by_cases hzero' : intFromBytes data' = 0
    · -- what decodes to one zero byte is no encoding of the data
      rw [decode_b58encode_of_eq_zero hzero', Option.some.injEq] at hdecode
      exact absurd (hdecode ▸ rfl) hzero
    · rw [decode_b58encode hzero', Option.some.injEq] at hdecode
      exact hdecode

/-- **No bytes, one and two zero bytes** have one encoding. -/
theorem b58encode_zeros : b58encode [] = PyStr.ofString "1" ∧ b58encode [0] = PyStr.ofString "1" ∧
    b58encode [0, 0] = PyStr.ofString "1" ∧
    ¬ ∀ data, Base58.decode (b58encode data) = some data := by
  refine ⟨by decide, by decide, by decide, fun h => ?_⟩
  have hdecode := h [0, 0]
  rw [decode_b58encode_of_eq_zero (by decide)] at hdecode
  cases hdecode

/-! ### The layout of a key -/

/-- The 78 bytes of an extended private key as BIP-32 lays them out. -/
def xprvBytes (version : Bytes) (key : ExtendedPrivateKey) : Bytes :=
  version ++ [UInt8.ofNat key.depth.toNat] ++ key.parentFingerprint
    ++ Radix.digits byteDigit 4 key.childNumber.toNat ++ key.chainCode.buf ++ [0]
    ++ key.privateKey.buf

/-- The first four bytes of the double SHA-256. -/
def checksumBytes (P : Primitives) (data : Bytes) : Bytes := (P.sha256 (P.sha256 data)).take 4

theorem length_checksumBytes (P : Primitives) (data : Bytes) :
    (checksumBytes P data).length = 4 := by
  rw [checksumBytes, List.length_take, P.sha256_length]
  rfl

/-- The version bytes BIP-32 gives to private keys, by network. -/
def bip32Versions : List (PyStr × Bytes) :=
  [(mainnet, [0x04, 0x88, 0xAD, 0xE4]), (testnet, [0x04, 0x35, 0x83, 0x94])]

theorem networkVersion_eq_ok_iff {network : PyStr} {version : Bytes} :
    networkVersion network = .ok version ↔ (network, version) ∈ bip32Versions := by
  have hne : testnet ≠ mainnet := by decide
  unfold networkVersion bip32Versions
  by_cases hm : network = mainnet
  · rw [if_pos hm, hm]
    simp [hne.symm, @eq_comm _ _ version]
  · by_cases ht : network = testnet
    · rw [if_neg hm, if_pos ht, ht]
      simp [hne, @eq_comm _ _ version]
    · rw [if_neg hm, if_neg ht]
      simp [hm, ht, raise]

theorem version_cases {network : PyStr} {version : Bytes}
    (h : networkVersion network = .ok version) :
    network = mainnet ∧ version = [0x04, 0x88, 0xAD, 0xE4] ∨
      network = testnet ∧ version = [0x04, 0x35, 0x83, 0x94] := by
  simpa [bip32Versions] using networkVersion_eq_ok_iff.mp h

/-- Both versions are four bytes and start with the byte 4. -/
theorem exists_version {network : PyStr} {version : Bytes}
    (h : networkVersion network = .ok version) :
    ∃ rest, version = 4 :: rest ∧ rest.length = 3 := by
  rcases version_cases h with ⟨-, rfl⟩ | ⟨-, rfl⟩
  · exact ⟨_, rfl, rfl⟩
  · exact ⟨_, rfl, rfl⟩

/-- The version determines the network. -/
theorem network_of_version {network network' : PyStr} {version : Bytes}
    (h : networkVersion network = .ok version) (h' : networkVersion network' = .ok version) :
    network = network' := by
  -- the two versions differ
  rcases version_cases h with ⟨rfl, rfl⟩ | ⟨rfl, rfl⟩
  · rcases version_cases h' with ⟨rfl, -⟩ | ⟨-, hv⟩
    · rfl
    · exact absurd hv (by decide)
  · rcases version_cases h' with ⟨-, hv⟩ | ⟨rfl, -⟩
    · exact absurd hv (by decide)
    · rfl

section Serialise

variable {P : Primitives} {key key' : ExtendedPrivateKey} {network : PyStr} {version : Bytes}

theorem length_xprvBytes (hshape : key.Shape) (hversion : networkVersion network = .ok version) :
    (xprvBytes version key).length = 78 := by
  obtain ⟨rest, rfl, hrest⟩ := exists_version hversion
  simp [xprvBytes, hrest, hshape.parentFingerprint_length, hshape.chainCode_length,
    hshape.privateKey_length]

/-- What `to_base58` encodes. -/
theorem toBase58_eq (hshape : key.Shape) (h₀ : 0 ≤ key.depth) (h₁ : key.depth ≤ 255)
    (hversion : networkVersion network = .ok version) :
    key.toBase58 P network
      = .ok (b58encode (xprvBytes version key ++ checksumBytes P (xprvBytes version key))) := by
  have hdepth : bytesOfInt key.depth = .ok [UInt8.ofNat key.depth.toNat] := by
    have h := bytesOfInt_natCast (n := key.depth.toNat) (by omega)
    rwa [Int.toNat_of_nonneg h₀] at h
  have hchild : packU32 key.childNumber
      = .ok (Radix.digits byteDigit 4 key.childNumber.toNat) :=
    packU32_eq_ok_iff.mpr ⟨hshape.childNumber_nonneg, hshape.childNumber_lt, rfl⟩
  unfold ExtendedPrivateKey.toBase58
  rw [hversion, hdepth, hchild]
  rfl

/-- A string that starts with a nonzero byte spells a nonzero number. -/
theorem intFromBytes_cons_ne_zero {b : UInt8} (hb : b ≠ 0) (l : Bytes) :
    intFromBytes (b :: l) ≠ 0 :=
  (lt_of_lt_of_le (Nat.pow_pos (by decide))
    (Radix.pow_le_value byteDigit l (show b ≠ Radix.zero byteDigit from hb))).ne'

/-- **Decoding a serialised key** yields its layout and its checksum. -/
theorem decodeCheck_toBase58 (hshape : key.Shape) (h₀ : 0 ≤ key.depth) (h₁ : key.depth ≤ 255)
    (hversion : networkVersion network = .ok version) :
    ∃ s, key.toBase58 P network = .ok s ∧
      Base58.decodeCheck P s
        = some (xprvBytes version key ++ checksumBytes P (xprvBytes version key)) := by
  refine ⟨_, toBase58_eq hshape h₀ h₁ hversion, ?_⟩
  have hlen := length_xprvBytes hshape hversion
  -- the version byte keeps the number away from zero
  have hne :
      intFromBytes (xprvBytes version key ++ checksumBytes P (xprvBytes version key)) ≠ 0 := by
    obtain ⟨rest, rfl, -⟩ := exists_version hversion
    exact intFromBytes_cons_ne_zero (by decide) _
  unfold Base58.decodeCheck
  rw [decode_b58encode hne]
  simp only [Option.bind_eq_bind, Option.bind_some, List.length_append, length_checksumBytes,
    Nat.add_sub_cancel, List.take_left, List.drop_left]
  exact if_pos rfl

/-- The layout determines version and key. -/
theorem xprvBytes_inj {version' : Bytes} (hshape : key.Shape) (hshape' : key'.Shape)
    (h₀ : 0 ≤ key.depth) (h₁ : key.depth ≤ 255) (h₀' : 0 ≤ key'.depth) (h₁' : key'.depth ≤ 255)
    (h : xprvBytes version key = xprvBytes version' key') : version = version' ∧ key = key' := by
  unfold xprvBytes at h
  -- the fields are taken off from the right, each in its fixed width
  obtain ⟨h, hkey⟩ := List.append_inj' h
    (hshape.privateKey_length.trans hshape'.privateKey_length.symm)
  obtain ⟨h, -⟩ := List.append_inj' h rfl
  obtain ⟨h, hchain⟩ := List.append_inj' h
    (hshape.chainCode_length.trans hshape'.chainCode_length.symm)
  obtain ⟨h, hchild⟩ := List.append_inj' h
    ((Radix.length_digits _ _ _).trans (Radix.length_digits _ _ _).symm)
  obtain ⟨h, hfinger⟩ := List.append_inj' h
    (hshape.parentFingerprint_length.trans hshape'.parentFingerprint_length.symm)
  obtain ⟨hversion, hdepth⟩ := List.append_inj' h rfl
  -- the numbers fit their fields, so equal bytes are equal numbers
  have hchild' : key.childNumber.toNat = key'.childNumber.toNat := by
    have hlt := hshape.childNumber_lt
    have hlt' := hshape'.childNumber_lt
    exact Radix.digits_inj byteDigit (by norm_num; omega) (by norm_num; omega) hchild
  have hdepth' : key.depth.toNat = key'.depth.toNat := by
    have hnat := congrArg UInt8.toNat (List.singleton_inj.mp hdepth)
    rwa [UInt8.toNat_ofNat_of_lt' (by norm_num; omega),
      UInt8.toNat_ofNat_of_lt' (by norm_num; omega)] at hnat
  have hdepthEq : key.depth = key'.depth := by omega
  have hchildEq : key.childNumber = key'.childNumber := by
    have hchild₀ := hshape.childNumber_nonneg
    have hchild₀' := hshape'.childNumber_nonneg
    omega
  refine ⟨hversion, ?_⟩
  cases key
  cases key'
  rw [ExtendedPrivateKey.mk.injEq]
  exact ⟨SecretBytes.ext hkey, SecretBytes.ext hchain, hdepthEq, hfinger, hchildEq⟩

end Serialise

/-- The keys the library derives and can serialise. -/
structure Derived (P : Primitives) (key : ExtendedPrivateKey) : Prop where
  derived : ∃ seed path, deriveFromSeed P seed path = .ok key
  depth_le : key.depth ≤ 255

theorem Derived.shape {P : Primitives} {key : ExtendedPrivateKey} (h : Derived P key) :
    key.Shape ∧ 0 ≤ key.depth := by
  obtain ⟨seed, path, hderive⟩ := h.derived
  obtain ⟨hshape, hdepth⟩ := shape_of_deriveFromSeed hderive
  exact ⟨hshape, by omega⟩

/-- **Serialisation loses nothing.** For a derived key of depth 255 at most and either network,
the reference decoder returns 82 bytes: the layout of BIP-32 and its checksum. A derived key and a
network with the same string are the same key and the same network. -/
theorem toBase58_decodes {P : Primitives} {key : ExtendedPrivateKey} (hkey : Derived P key)
    {network : PyStr} {version : Bytes} (hnetwork : (network, version) ∈ bip32Versions) :
    ∃ s raw, key.toBase58 P network = .ok s ∧ Base58.decodeCheck P s = some raw ∧
      raw.length = 82 ∧ raw.take 78 = xprvBytes version key ∧
      raw.drop 78 = (P.sha256 (P.sha256 (raw.take 78))).take 4 ∧
      ∀ key' network', Derived P key' → key'.toBase58 P network' = .ok s →
        key' = key ∧ network' = network := by
  have hversion := networkVersion_eq_ok_iff.mpr hnetwork
  obtain ⟨hshape, h₀⟩ := hkey.shape
  obtain ⟨s, hs, hdecode⟩ := decodeCheck_toBase58 (P := P) hshape h₀ hkey.depth_le hversion
  have hlen := length_xprvBytes hshape hversion
  refine ⟨s, _, hs, hdecode, ?_, List.take_left' hlen, ?_, ?_⟩
  · rw [List.length_append, hlen, length_checksumBytes]
  · rw [List.take_left' hlen, List.drop_left' hlen]
    rfl
  · intro key' network' hkey' hs'
    obtain ⟨hshape', h₀'⟩ := hkey'.shape
    -- whatever serialises at all has a version
    have hnet : ∃ version', networkVersion network' = .ok version' := by
      unfold ExtendedPrivateKey.toBase58 at hs'
      obtain ⟨version', hv, -⟩ := Effect.bind_eq_ok_iff.mp hs'
      exact ⟨version', hv⟩
    obtain ⟨version', hversion'⟩ := hnet
    obtain ⟨t, ht, hdecode'⟩ := decodeCheck_toBase58 (P := P) hshape' h₀' hkey'.depth_le hversion'
    obtain rfl : t = s := Except.ok.inj (ht.symm.trans hs')
    -- one string decodes to one layout
    rw [hdecode, Option.some.injEq] at hdecode'
    have hraw := (List.append_inj hdecode'
      (hlen.trans (length_xprvBytes hshape' hversion').symm)).1
    obtain ⟨rfl, rfl⟩ := xprvBytes_inj hshape hshape' h₀ hkey.depth_le h₀' hkey'.depth_le hraw
    exact ⟨rfl, network_of_version hversion' hversion⟩

/-- The master key of the seed `[1]` under `toy`. -/
def toyMaster : ExtendedPrivateKey where
  privateKey := ⟨Radix.digits byteDigit 32 2, by decide⟩
  chainCode := ⟨List.replicate 32 0, by decide⟩
  depth := 0
  parentFingerprint := [0, 0, 0, 0]
  childNumber := 0

theorem toyMaster_derived : Derived Primitives.toy toyMaster :=
  ⟨⟨⟨[1], by decide⟩, ⟨[]⟩, by rfl⟩, by decide⟩

/-- `toy`, with digests and chain codes that are not zero. -/
def Primitives.stamped : Primitives :=
  { Primitives.toy.withHmac
      (fun _ b => Radix.digits byteDigit 32 (intFromBytes b % 2 ^ 128 + 1) ++ List.replicate 32 5)
      (fun _ _ => by simp) with
    ripemd160 := fun _ => List.replicate 20 7
    ripemd160_length := fun _ => List.length_replicate }

/-- A hardened child has something in each of its fields. -/
theorem exists_stamped : ∃ key, Derived Primitives.stamped key ∧ key.depth = 1 ∧
    key.childNumber = 2 ^ 31 + 7 ∧ key.parentFingerprint = [7, 7, 7, 7] ∧
    key.chainCode.buf = List.replicate 32 5 := by
  have hfields : (deriveFromSeed Primitives.stamped ⟨[1], by decide⟩ ⟨[(7, true)]⟩).toOption.map
      (fun key => (key.depth, key.childNumber, key.parentFingerprint, key.chainCode.buf))
        = some (1, 2 ^ 31 + 7, [7, 7, 7, 7], List.replicate 32 5) := by decide +kernel
  cases hderive : deriveFromSeed Primitives.stamped ⟨[1], by decide⟩ ⟨[(7, true)]⟩ with
  | error x =>
    rw [hderive] at hfields
    cases hfields
  | ok key =>
    rw [hderive] at hfields
    have hfields := Option.some.inj hfields
    simp only [Prod.mk.injEq] at hfields
    obtain ⟨hdepth, hchild, hfinger, hchain⟩ := hfields
    refine ⟨key, ⟨⟨_, _, hderive⟩, ?_⟩, hdepth, hchild, hfinger, hchain⟩
    rw [hdepth]
    decide

theorem toBase58_decodes_stamped : ∃ key s raw, key.depth = 1 ∧ key.childNumber = 2 ^ 31 + 7 ∧
    key.parentFingerprint = [7, 7, 7, 7] ∧ key.chainCode.buf = List.replicate 32 5 ∧
    key.toBase58 Primitives.stamped testnet = .ok s ∧
    Base58.decodeCheck Primitives.stamped s = some raw ∧ raw.length = 82 ∧
    raw.take 78 = xprvBytes [0x04, 0x35, 0x83, 0x94] key ∧
    raw.drop 78 = (Primitives.stamped.sha256 (Primitives.stamped.sha256 (raw.take 78))).take 4 ∧
    ∀ key' network', Derived Primitives.stamped key' →
      key'.toBase58 Primitives.stamped network' = .ok s → key' = key ∧ network' = testnet := by
  obtain ⟨key, hkey, hdepth, hchild, hfinger, hchain⟩ := exists_stamped
  obtain ⟨s, raw, hdecodes⟩ := toBase58_decodes hkey
    (show (testnet, [0x04, 0x35, 0x83, 0x94]) ∈ bip32Versions by simp [bip32Versions])
  exact ⟨key, s, raw, hdepth, hchild, hfinger, hchain, hdecodes⟩

end KeystoneCrypto
