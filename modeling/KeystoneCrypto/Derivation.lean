import KeystoneCrypto.Primitives
import KeystoneCrypto.SecretBytes
import KeystoneCrypto.Lib.Effect
import KeystoneCrypto.Lib.Walk

/-!
# Hierarchical derivation (`derivation.py`)

`DerivationPath.parse` reads a path, `ExtendedPrivateKey.derive` takes one step along it,
`deriveFromSeed` all of them from the master key of a seed. `toBase58` serialises a key.
-/

namespace KeystoneCrypto

def hardenedOffset : ℤ := 0x80000000

def maxChildIndex : ℤ := 0xFFFFFFFF

def secp256k1N : ℕ := 0xFFFFFFFFFFFFFFFFFFFFFFFFFFFFFFFEBAAEDCE6AF48A03BBFD25E8CD0364141

theorem secp256k1N_eq : secp256k1N = groupOrder := rfl

/-! ### Paths -/

/-- A `DerivationPath`: index and hardened flag of each component. -/
@[ext]
structure DerivationPath where
  indices : List (ℤ × Bool)
  deriving DecidableEq

namespace DerivationPath

def apostrophe : CodePoint := 0x27

def slash : CodePoint := 0x2F

/-- One turn of the loop of `parse`. -/
def parseComponent (part : PyStr) : Except PyExc (ℤ × Bool) := do
  let isMarker := fun (c : CodePoint) => c == apostrophe || c == CodePoint.ofChar 'h'
  let hardened := part.getLast?.any isMarker
  -- `rstrip("'h")` takes off every marker at the end, not only one
  let numStr : PyStr := part.rdropWhile isMarker
  raiseIf (numStr.isdigit = false) .invalidDerivationPathError
    [.lit "non-numeric component: ", .repr part]
  let idx ← numStr.toInt
  raiseIf (idx < 0 ∨ 0x7FFFFFFF < idx) .invalidDerivationPathError
    [.lit "index out of range: ", .int idx]
  return (idx, hardened)

/-- `DerivationPath.parse(s)`. -/
def parse (s : PyStr) : Except PyExc DerivationPath := do
  let s := s.strip
  -- the empty string is the root too
  if s = [] ∨ s = PyStr.ofString "m" then
    return ⟨[]⟩
  raiseIf (s.take 2 ≠ PyStr.ofString "m/") .invalidDerivationPathError
    [.lit "path must start with 'm/', got ", .repr s]
  let parts := (s.drop 2).splitOn slash
  let out ← parts.mapM parseComponent
  return ⟨out⟩

end DerivationPath

/-! ### Extended keys -/

/-- An `ExtendedPrivateKey`. -/
structure ExtendedPrivateKey where
  privateKey : SecretBytes
  chainCode : SecretBytes
  depth : ℤ
  parentFingerprint : Bytes
  childNumber : ℤ

namespace ExtendedPrivateKey

/-- `ExtendedPrivateKey.master(seed)`. -/
def master (P : Primitives) (seed : SecretBytes) : Except PyExc ExtendedPrivateKey := do
  let i := P.hmacSha512 (Bytes.ofString "Bitcoin seed") seed.buf
  let secretKey ← SecretBytes.new (i.take 32)
  let chainCode ← SecretBytes.new (i.drop 32)
  return { privateKey := secretKey, chainCode, depth := 0, parentFingerprint := [0, 0, 0, 0]
           childNumber := 0 }

/-- `fingerprint()`. -/
def fingerprint (P : Primitives) (key : ExtendedPrivateKey) : Except PyExc Bytes := do
  let sk ← KeystoneCrypto.privateKey key.privateKey.buf
  return (P.ripemd160 (P.sha256 (P.compressedPublicKey sk))).take 4

/-- The HMAC message of `derive` for an effective index. -/
def childData (P : Primitives) (key : ExtendedPrivateKey) (index : ℤ) : Except PyExc Bytes :=
  if hardenedOffset ≤ index then do
    -- hardened: the private key itself goes into the message
    let ser ← packU32 index
    return [0] ++ key.privateKey.buf ++ ser
  else do
    let sk ← KeystoneCrypto.privateKey key.privateKey.buf
    let ser ← packU32 index
    return P.compressedPublicKey sk ++ ser

/-- `derive(index, hardened)`. -/
def derive (P : Primitives) (key : ExtendedPrivateKey) (index : ℤ) (hardened : Bool) :
    Except PyExc ExtendedPrivateKey := do
  raiseIf (index < 0 ∨ 0x7FFFFFFF < index) .valueError [.lit "index out of range: ", .int index]
  let index := if hardened then index + hardenedOffset else index
  raiseIf (index < 0 ∨ maxChildIndex < index) .valueError
    [.lit "effective child index out of range: ", .int index]
  let data ← childData P key index
  let i := P.hmacSha512 key.chainCode.buf data
  let ilInt := intFromBytes (i.take 32)
  let kparInt := intFromBytes key.privateKey.buf
  raiseIf (secp256k1N ≤ ilInt) .valueError
    [.lit "derivation produced invalid child key (IL >= n)"]
  -- the parent key is not checked here; coincurve checks it when the fingerprint is computed
  let childInt := (ilInt + kparInt) % secp256k1N
  raiseIf (childInt = 0) .valueError [.lit "derivation produced zero child key"]
  let childKey ← intToBytes childInt 32
  let secretKey ← SecretBytes.new childKey
  let chainCode ← SecretBytes.new (i.drop 32)
  let parentFingerprint ← key.fingerprint P
  return { privateKey := secretKey, chainCode, depth := key.depth + 1, parentFingerprint
           childNumber := index }

end ExtendedPrivateKey

/-! ### Base58 -/

def b58Alphabet : Bytes :=
  Bytes.ofString "123456789ABCDEFGHJKLMNPQRSTUVWXYZabcdefghijkmnopqrstuvwxyz"

/-- The loop of `_b58encode` over `n, r = divmod(n, 58)`. -/
def b58Digits (n : ℕ) (out : Bytes) : Bytes :=
  if _h : n = 0 then out
  -- the remainder always is an index of the alphabet
  else b58Digits (n / 58) (out ++ [b58Alphabet.getD (n % 58) 0])
termination_by n
decreasing_by exact Nat.div_lt_self (Nat.pos_of_ne_zero _h) (by decide)

/-- The loop of `_b58encode` over the leading zero bytes. -/
def b58Zeros : Bytes → Bytes → Bytes
  | [], out => out
  | b :: data, out => if b = 0 then b58Zeros data (out ++ [b58Alphabet.getD 0 0]) else out

/-- `_b58encode(data)`. -/
def b58encode (data : Bytes) : PyStr :=
  let n := intFromBytes data
  -- whatever zero has been written with, it becomes one character
  if n = 0 then decodeAscii (b58Alphabet.take 1)
  else decodeAscii (b58Zeros data (b58Digits n [])).reverse

def mainnet : PyStr := PyStr.ofString "mainnet"

def testnet : PyStr := PyStr.ofString "testnet"

/-- The dictionary of version bytes in `to_base58`. -/
def networkVersion (network : PyStr) : Except PyExc Bytes :=
  if network = mainnet then .ok [0x04, 0x88, 0xAD, 0xE4]
  else if network = testnet then .ok [0x04, 0x35, 0x83, 0x94]
  else raise .keyError [.repr network]

/-- `to_base58(network)`. -/
def ExtendedPrivateKey.toBase58 (P : Primitives) (key : ExtendedPrivateKey) (network : PyStr) :
    Except PyExc PyStr := do
  let version ← networkVersion network
  let depth ← bytesOfInt key.depth
  let child ← packU32 key.childNumber
  let raw := version ++ depth ++ key.parentFingerprint ++ child ++ key.chainCode.buf ++ [0]
    ++ key.privateKey.buf
  let checksum := (P.sha256 (P.sha256 raw)).take 4
  return b58encode (raw ++ checksum)

/-- `derive_from_seed(seed, path)`. -/
def deriveFromSeed (P : Primitives) (seed : SecretBytes) (path : DerivationPath) :
    Except PyExc ExtendedPrivateKey := do
  let key ← ExtendedPrivateKey.master P seed
  Walk.walk (fun key c => key.derive P c.1 c.2) key path.indices

end KeystoneCrypto
