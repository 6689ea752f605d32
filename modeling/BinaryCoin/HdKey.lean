/-
  BinaryCoin — key.cpp and hdkey.cpp: private keys, and the keys that are
  derived from the seed of a phrase.

  The group operations are secp256k1's and the keyed digests OpenSSL's: they
  are the fields of `KeyCrypto`.
-/
import BinaryCoin.Mnemonic
import BinaryCoin.Script

namespace BinaryCoin

/-- The library functions on secret keys. -/
class KeyCrypto where
  /-- `valid_secret_key(secret)` -/
  validSecretKey : Hash256 → Bool
  /-- `secp256k1_ec_pubkey_create`, compressed -/
  publicKey : Hash256 → Bytes
  /-- `secp256k1_ec_seckey_tweak_add`, which may fail -/
  tweakAdd : Hash256 → Hash256 → Option Hash256
  /-- The halves of `HMAC(EVP_sha512(), key, data)` -/
  hmacSha512 : Bytes → Bytes → Hash256 × Hash256
  /-- `PKCS5_PBKDF2_HMAC` of a password and a salt -/
  pbkdf2 : Str → Str → Bytes

export KeyCrypto (validSecretKey tweakAdd hmacSha512 pbkdf2)

variable [KeyCrypto]

/-! ## Keys -/

/-- A `Secp256k1Key` is kept as its secret, which the constructor has checked. -/
@[ext] structure Secp256k1Secret where
  secret : Hash256
  valid : validSecretKey secret

def Secp256k1Secret.fromSecretBytes (secret : Hash256) : Except Exn Secp256k1Secret :=
  if h : validSecretKey secret then .ok ⟨secret, h⟩
  else .error (invalidArgument "Invalid secp256k1 secret key")

def Secp256k1Secret.fromSecretHex (secretHex : Str) : Except Exn Secp256k1Secret := do
  let bytes ← hexToBytes secretHex
  throwIf (bytes.length ≠ 32) (invalidArgument "Secret key must be 32 bytes")
  fromSecretBytes (Hash256.ofBytes bytes)

def Secp256k1Secret.secretHex (key : Secp256k1Secret) : Str := bytesToHex key.secret.bytes

def Secp256k1Secret.compressedPublicKey (key : Secp256k1Secret) : Bytes := KeyCrypto.publicKey key.secret

def addSecretTweak (secret tweak : Hash256) : Except Exn Hash256 := do
  throwIf (¬ validSecretKey secret) (invalidArgument "Invalid secret or tweak length")
  orThrow (tweakAdd secret tweak) (runtimeError "BIP32 child tweak produced an invalid key")

/-! ## Derivation -/

def hardened : UInt32 := 0x80000000

structure HdPrivateKey where
  secret : Hash256
  chainCode : Hash256
  depth : UInt8
  childNumber : UInt32
  deriving DecidableEq

def HdPrivateKey.key (k : HdPrivateKey) : Except Exn Secp256k1Secret :=
  Secp256k1Secret.fromSecretBytes k.secret

def appendU32Be (output : Bytes) (value : UInt32) : Bytes :=
  output ++ [(value >>> 24).toUInt8, (value >>> 16).toUInt8, (value >>> 8).toUInt8, value.toUInt8]

def HdPrivateKey.derive (k : HdPrivateKey) (child : UInt32) : Except Exn HdPrivateKey := do
  let data ← (if child &&& hardened ≠ 0 then .ok (0 :: k.secret.bytes)
    else Secp256k1Secret.compressedPublicKey <$> k.key)
  let digest := hmacSha512 k.chainCode.bytes (appendU32Be data child)
  let childSecret ← addSecretTweak k.secret digest.1
  return ⟨childSecret, digest.2, k.depth + 1, child⟩

def bip32Master (seed : Bytes) : Except Exn HdPrivateKey := do
  let digest := hmacSha512 (str "Bitcoin seed") seed
  throwIf (¬ validSecretKey digest.1) (runtimeError "BIP32 master key is invalid")
  return ⟨digest.1, digest.2, 0, 0⟩

/-- `m/44'/1'/0'/branch/index` -/
def deriveTestnetWalletKey (master : HdPrivateKey) (branch index : UInt32) :
    Except Exn HdPrivateKey := do
  let purpose ← master.derive (44 ||| hardened)
  let coin ← purpose.derive (1 ||| hardened)
  let account ← coin.derive (0 ||| hardened)
  let chain ← account.derive branch
  chain.derive index

def mnemonicToSeed (phrase : Str) : Bytes := pbkdf2 (normalizeSpaces phrase) (str "mnemonic")

/-! ## Round trip -/

theorem Secp256k1Secret.fromSecretHex_secretHex (key : Secp256k1Secret) :
    fromSecretHex key.secretHex = .ok key := by
  refine except_bind_ok.2 ⟨_, hexToBytes_bytesToHex _, ?_⟩
  refine except_bind_ok.2 ⟨(), throwIf_ok.2 (not_not.2 key.secret.size_eq), ?_⟩
  rw [Hash256.ofBytes_bytes, fromSecretBytes, dif_pos key.valid]

end BinaryCoin
