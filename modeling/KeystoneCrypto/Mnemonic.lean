import KeystoneCrypto.Wordlist
import KeystoneCrypto.World

/-!
# Mnemonics (`mnemonic.py`, `entropy.py`)

A `Mnemonic` is the string it was built from. `fromEntropy` cuts the bits of an entropy and its
checksum into words; `fromPhrase` takes words apart into bits and compares checksums; `entropy`
does so again without the comparison. The three bit computations are written out separately, as
in the source, and meet in `Mnemonic.Codec`.
-/

namespace KeystoneCrypto

def strengthBits : List ℤ := [128, 160, 192, 224, 256]

/-- `generate_entropy(bits)`. -/
def generateEntropy (bits : ℤ) : Py SecretBytes := do
  raiseIf (bits % 8 ≠ 0) .valueError [.lit "bits must be a multiple of 8, got ", .int bits]
  raiseIf (bits < 128 ∨ 256 < bits) .valueError
    [.lit "bits must be in [", .int 128, .lit ", ", .int 256, .lit "], got ", .int bits]
  let b ← tokenBytes (bits / 8)
  SecretBytes.new b

/-- `f"{i:011b}"`. -/
def wordBits (i : ℕ) : List Bool := zfill 11 (bin i)

/-- `bin(int.from_bytes(hashlib.sha256(ent).digest(), "big"))[2:].zfill(256)[:k]`. -/
def checksum (P : Primitives) (ent : Bytes) (k : ℕ) : List Bool :=
  (zfill 256 (bin (intFromBytes (P.sha256 ent)))).take k

/-- `[_WORD_TO_INDEX[w] for w in words]`, or the first word that is no key. -/
def lookupAll (words : List PyStr) : Except PyStr (List ℕ) :=
  words.mapM fun w => match wordToIndex w with
    | some i => .ok i
    | none => .error w

/-- A `Mnemonic` object; `==` compares the strings. -/
@[ext]
structure Mnemonic where
  phrase : PyStr
  deriving DecidableEq

namespace Mnemonic

/-- `Mnemonic.from_phrase(phrase)`. -/
def fromPhrase (P : Primitives) (phrase : PyStr) : Except PyExc Mnemonic := do
  let normalizedPhrase := P.nfkd phrase
  let words := normalizedPhrase.split
  -- from here on only the split words are looked at
  raiseIf (words.length ∉ [12, 15, 18, 21, 24]) .invalidMnemonicError
    [.lit "mnemonic must have 12/15/18/21/24 words, got ", .int words.length]
  let indices ← match lookupAll words with
    | .ok indices => pure indices
    | .error w => raise .invalidMnemonicError [.lit "unknown word: ", .str w]
  let bits := indices.flatMap wordBits
  let checksumBits := words.length * 11 / 33
  let entBits := sliceDropEnd bits checksumBits
  let csBits := sliceTakeEnd bits checksumBits
  let n ← intBase2 entBits
  let entBytes ← intToBytes n (entBits.length / 8)
  raiseIf (checksum P entBytes checksumBits ≠ csBits) .invalidMnemonicError
    [.lit "invalid checksum"]
  -- the mnemonic keeps the string as it was typed, blanks included
  return ⟨normalizedPhrase⟩

/-- `Mnemonic.from_entropy(entropy)`. -/
def fromEntropy (P : Primitives) (entropy : SecretBytes) : Except PyExc Mnemonic := do
  let ent := entropy.buf
  let bits := zfill (ent.length * 8) (bin (intFromBytes ent))
  let checksumBits := ent.length * 8 / 32
  let csBits := checksum P ent checksumBits
  -- no check on the length of the entropy: the last slice may be a short one
  let allBits := bits ++ csBits
  let words ← (rangeStep allBits.length 11).mapM fun i => do
    let n ← intBase2 (sliceFromTo allBits i (i + 11))
    indexAt englishWordlist n
  return ⟨PyStr.joinSpace words⟩

/-- `Mnemonic.generate(strength)`. -/
def generate (P : Primitives) (strength : ℤ) : Py Mnemonic := do
  raiseIf (strength ∉ strengthBits) .valueError
    [.lit "strength must be one of (128, 160, 192, 224, 256), got ", .int strength]
  let e ← generateEntropy strength
  fromEntropy P e

/-- The property `entropy`. -/
def entropy (m : Mnemonic) : Except PyExc SecretBytes := do
  let words := m.phrase.split
  let indices ← match lookupAll words with
    | .ok indices => pure indices
    -- a mnemonic built without `from_phrase` may hold any words
    | .error w => raise .keyError [.repr w]
  let bits := indices.flatMap wordBits
  let checksumBits := words.length * 11 / 33
  let entBits := sliceDropEnd bits checksumBits
  let n ← intBase2 entBits
  let entBytes ← intToBytes n (entBits.length / 8)
  SecretBytes.new entBytes

/-- `seed(passphrase)`. -/
def seed (P : Primitives) (m : Mnemonic) (passphrase : PyStr) : Except PyExc SecretBytes :=
  let encoded : Except PyExc (Bytes × Bytes) := do
    let normalizedMnemonic ← (P.nfkd m.phrase).encodeUtf8
    let normalizedSalt ← (P.nfkd (PyStr.ofString "mnemonic" ++ passphrase)).encodeUtf8
    return (normalizedMnemonic, normalizedSalt)
  match encoded with
  | .ok (password, salt) => SecretBytes.new (P.pbkdf2HmacSha512 password salt 2048 64)
  -- the text of the encoding error goes into the message
  | .error e => raise .invalidPassphraseError (.lit "passphrase not valid UTF-8: " :: e.text)

end Mnemonic

end KeystoneCrypto
