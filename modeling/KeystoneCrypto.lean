import KeystoneCrypto.Mnemonic.Spelling
import KeystoneCrypto.Mnemonic.Lengths
import KeystoneCrypto.Derivation.Runs
import KeystoneCrypto.Derivation.Serialised
import KeystoneCrypto.Derivation.Messages
import KeystoneCrypto.Derivation.Path
import KeystoneCrypto.Signing.Verify
import KeystoneCrypto.Signing.Strict
import KeystoneCrypto.Keystore.Root
import KeystoneCrypto.Keystore.Cost
import KeystoneCrypto.Keystore.Erasure
import KeystoneCrypto.Keystore.Sessions
import KeystoneCrypto.Keystore.Slip10
import KeystoneCrypto.Keystore.Metadata
import KeystoneCrypto.Keystore.Passwords
import KeystoneCrypto.Keystore.Recipe
import KeystoneCrypto.Keystore.Guarantees
import KeystoneCrypto.Keystore.Randomness
import KeystoneCrypto.Keystore.Residue
import KeystoneCrypto.Derivation.Public
import KeystoneCrypto.Derivation.Commitment
import KeystoneCrypto.Mnemonic.LastWord
import KeystoneCrypto.Envelope.Accepted
import KeystoneCrypto.Keystore.Noninterference
import KeystoneCrypto.Keystore.Authenticity
