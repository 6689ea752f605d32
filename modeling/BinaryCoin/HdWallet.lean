/-
  BinaryCoin — hd_wallet_backend.cpp: the wallet, and the file it is kept in.

  The entropy that `create` and `upgrade_legacy` draw, and the outcome of
  writing the file, are arguments.
-/
import BinaryCoin.Bech32
import BinaryCoin.HdKey
import BinaryCoin.Json
import BinaryCoin.Utxo

namespace BinaryCoin

open Text

def legacyMagic : Str := str "BINARYCOIN_TESTNET_WALLET_V1"
def hdMagic : Str := str "BINARYCOIN_TESTNET_HD_WALLET_V2"
def lookahead : UInt32 := 20

/-! ## The fields of a wallet file -/

/-- `line.find('=')`: the name and the value of a field. -/
def splitField (line : Str) : Option (Str × Str) :=
  if 61 ∈ line then some (line.takeWhile (· ≠ 61), (line.dropWhile (· ≠ 61)).drop 1) else none

def readFields (lines : List Str) : List (Str × Str) :=
  (lines.filterMap splitField).foldl (fun fields field => insertOrAssign field.1 field.2 fields) []

def findField (fields : List (Str × Str)) (name : Str) : Option Str :=
  (fields.find? (·.1 = name)).map Prod.snd

/-- `std::stoul(text, &used, 10)`: the number and the position after it. -/
def stoul (text : Str) : Except Exn (ℕ × ℕ) := do
  let rest := skipSign (text.dropWhile isWhitespace)
  let digits := rest.takeWhile isDigit
  throwIf (digits = []) (invalidArgument "stoul")
  let magnitude := (Text.digits 10 digits).getD 0
  throwIf (magnitude ≥ 2 ^ 64) (outOfRange "stoul")
  let value := if next (· = 45) (text.dropWhile isWhitespace) then (2 ^ 64 - magnitude) % 2 ^ 64
    else magnitude
  return (value, text.length - rest.length + digits.length)

def parseU32Field (fields : List (Str × Str)) (name : String) : Except Exn UInt32 := do
  let found ← orThrow (findField fields (str name))
    (runtimeError ("Wallet is missing field: " ++ name))
  let (value, used) ← stoul found
  throwIf (used ≠ found.length ∨ value > 1000000) (runtimeError "Invalid wallet index")
  return UInt32.ofNat value

/-! ## The wallet -/

inductive WalletKind where
  | legacySingleKey
  | hdBip32
  deriving DecidableEq

/-- How the writing of a file ends. -/
inductive Write where
  | done
  /-- before the file is replaced -/
  | failed (e : Exn)
  /-- `restrict_permissions` throws, on the new file -/
  | unrestricted (e : Exn)

section
variable [Crypto] [KeyCrypto]

/-- The wallet and the files of its data directory.  `ownedCache` is `none` while the cache is not
    valid. -/
structure HdWalletBackend where
  dataDirectory : String
  walletFile : Option Str
  legacyFile : Option Str
  kind : WalletKind := .hdBip32
  entropy : Option Hash256 := none
  master : Option HdPrivateKey := none
  legacyKey : Option Secp256k1Secret := none
  nextReceive : UInt32 := 1
  nextChange : UInt32 := 1
  ownedCache : Option (List (Bytes × Secp256k1Secret)) := none

namespace HdWalletBackend

/-- `exists` -/
def walletExists (w : HdWalletBackend) : Bool := w.walletFile.isSome || w.legacyFile.isSome

def setHdEntropy (entropy : Hash256) : EStateM Exn HdWalletBackend Unit := do
  modify ({ · with entropy := some entropy })
  let master ← bip32Master (mnemonicToSeed (entropyToMnemonic entropy))
  modify ({ · with
    master := some master, kind := .hdBip32, nextReceive := 1, nextChange := 1, ownedCache := none })

/-- The text that `save_hd` writes. -/
def hdText (entropy : Hash256) (nextReceive nextChange : UInt32) (legacyKey : Option Secp256k1Secret) :
    Str :=
  unlines ([hdMagic, str "entropy" ++ 61 :: bytesToHex entropy.bytes,
    str "next_receive" ++ 61 :: decimal nextReceive.toNat,
    str "next_change" ++ 61 :: decimal nextChange.toNat] ++
    legacyKey.toList.map fun key => str "legacy_secret" ++ 61 :: key.secretHex)

def saveHd (write : Write) : EStateM Exn HdWalletBackend Unit := do
  let w ← get
  match w.entropy, w.master, write with
  | some entropy, some _, .done =>
    set { w with walletFile := some (hdText entropy w.nextReceive w.nextChange w.legacyKey) }
  | some _, some _, .failed e => throw e
  | some entropy, some _, .unrestricted e =>
    set { w with walletFile := some (hdText entropy w.nextReceive w.nextChange w.legacyKey) }
    throw e
  | _, _, _ => throw (runtimeError "HD wallet is not initialized")

/-- The fields of an HD wallet file. -/
def loadHd (fields : List (Str × Str)) : EStateM Exn HdWalletBackend Unit := do
  let foundEntropy ← orThrow (findField fields (str "entropy"))
    (runtimeError "HD wallet is missing entropy")
  let bytes ← hexToBytes foundEntropy
  throwIf (bytes.length ≠ 32) (runtimeError "HD wallet entropy has invalid length")
  setHdEntropy (Hash256.ofBytes bytes)
  let nextReceive ← parseU32Field fields "next_receive"
  modify ({ · with nextReceive := nextReceive })
  let nextChange ← parseU32Field fields "next_change"
  modify ({ · with nextChange := nextChange, ownedCache := none })
  match findField fields (str "legacy_secret") with
  | some secretHex => do
    let key ← Secp256k1Secret.fromSecretHex secretHex
    modify ({ · with legacyKey := some key })
  | none => pure ()

/-- The key of a legacy wallet file. -/
def loadLegacy (text : Str) : EStateM Exn HdWalletBackend Unit :=
  match lines text with
  | magic :: secretLine :: _ => do
    throwIf (magic ≠ legacyMagic ∨ secretLine.take 7 ≠ str "secret=")
      (runtimeError "Invalid or unsupported legacy wallet file")
    let key ← Secp256k1Secret.fromSecretHex (secretLine.drop 7)
    modify ({ · with legacyKey := some key, kind := .legacySingleKey, ownedCache := none })
  | _ => throw (runtimeError "Invalid or unsupported legacy wallet file")

def load : EStateM Exn HdWalletBackend Unit := do
  modify ({ · with entropy := none, master := none, legacyKey := none })
  let w ← get
  match w.walletFile, w.legacyFile with
  | some text, _ =>
    throwIf ((lines text).head? ≠ some hdMagic)
      (runtimeError "Invalid or unsupported HD wallet file")
    loadHd (readFields (lines text).tail)
  | none, some text => loadLegacy text
  | none, none => throw (runtimeError "Wallet does not exist; run wallet-create first")

def create (entropy : Hash256) (write : Write) : EStateM Exn HdWalletBackend Str := do
  let w ← get
  throwIf w.walletExists (runtimeError ("Wallet already exists in: " ++ w.dataDirectory))
  setHdEntropy entropy
  saveHd write
  return entropyToMnemonic entropy

def importMnemonic (phrase : Str) (write : Write) : EStateM Exn HdWalletBackend Unit := do
  let w ← get
  throwIf w.walletExists (runtimeError ("Wallet already exists in: " ++ w.dataDirectory))
  let entropy ← mnemonicToEntropy phrase
  setHdEntropy entropy
  saveHd write

def upgradeLegacy (entropy : Hash256) (write : Write) : EStateM Exn HdWalletBackend Str := do
  let w ← get
  throwIf w.walletFile.isSome (runtimeError "HD wallet already exists")
  throwIf w.legacyFile.isNone (runtimeError "No legacy wallet exists to upgrade")
  load
  let w ← get
  match w.kind, w.legacyKey with
  | .legacySingleKey, some preserved =>
    setHdEntropy entropy
    modify ({ · with legacyKey := some preserved })
    saveHd write
    return entropyToMnemonic entropy
  | _, _ => throw (runtimeError "Legacy wallet could not be loaded")

def hdKey (w : HdWalletBackend) (branch index : UInt32) : Except Exn Secp256k1Secret := do
  let master ← orThrow w.master (runtimeError "HD wallet is not loaded")
  let key ← deriveTestnetWalletKey master branch index
  key.key

/-- The legacy key is dereferenced without a check. -/
def address (w : HdWalletBackend) : Except Exn Str := do
  let key ← match w.kind with
    | .hdBip32 => w.hdKey 0 0
    | .legacySingleKey => orThrow w.legacyKey (runtimeError "undefined")
  encodeTestnetAddress key.compressedPublicKey

def getNewAddress (write : Write) : EStateM Exn HdWalletBackend Str := do
  let w ← get
  throwIf (w.kind ≠ .hdBip32) (runtimeError "Legacy wallet has one key; run wallet-upgrade first")
  let key ← w.hdKey 0 w.nextReceive
  let result ← encodeTestnetAddress key.compressedPublicKey
  modify fun w => { w with nextReceive := w.nextReceive + 1, ownedCache := none }
  saveHd write
  return result

/-! ### Ownership -/

def ownedEntry (key : Secp256k1Secret) : Except Exn (Bytes × Secp256k1Secret) := do
  let script ← makeP2pkScript key.compressedPublicKey
  return (script, key)

/-- The keys of a branch up to an index. -/
def ownedBranch (w : HdWalletBackend) (branch limit : UInt32) :
    Except Exn (List (Bytes × Secp256k1Secret)) :=
  (List.range limit.toNat).mapM fun index => do
    ownedEntry (← w.hdKey branch (UInt32.ofNat index))

def ownedEntries (w : HdWalletBackend) : Except Exn (List (Bytes × Secp256k1Secret)) := do
  let receive ← (if w.kind = .hdBip32 then w.ownedBranch 0 (w.nextReceive + lookahead) else .ok [])
  let change ← (if w.kind = .hdBip32 then w.ownedBranch 1 (w.nextChange + lookahead) else .ok [])
  let legacy ← w.legacyKey.toList.mapM ownedEntry
  return receive ++ change ++ legacy

def rebuildOwnedCache : EStateM Exn HdWalletBackend (List (Bytes × Secp256k1Secret)) := do
  let w ← get
  match w.ownedCache with
  | some entries => return entries
  | none =>
    let entries ← w.ownedEntries
    set { w with ownedCache := some entries }
    return entries

def keyForScript (script : Bytes) : EStateM Exn HdWalletBackend (Option Secp256k1Secret) := do
  let entries ← rebuildOwnedCache
  return (entries.find? (·.1 = script)).map Prod.snd

def ownsScript (scriptPubkey : Bytes) : EStateM Exn HdWalletBackend Bool := do
  return (← keyForScript scriptPubkey).isSome

structure WalletBalance where
  total : ℤ := 0
  spendable : ℤ := 0
  immature : ℤ := 0
  deriving DecidableEq

/-- The body of the loop of `balance`. -/
def addCoin (spendHeight : UInt64) (result : WalletBalance) (coin : Coin) :
    EStateM Exn HdWalletBackend WalletBalance := do
  if ← ownsScript coin.output.scriptPubkey then
    throwIf (result.total > maxMoney - coin.output.value) (runtimeError "Wallet balance overflow")
    if coin.coinbase ∧ spendHeight < coin.height + coinbaseMaturity then
      return { result with
        total := result.total + coin.output.value
        immature := result.immature + coin.output.value }
    else
      return { result with
        total := result.total + coin.output.value
        spendable := result.spendable + coin.output.value }
  else return result

def balance (utxos : UtxoSet) (spendHeight : UInt64) : EStateM Exn HdWalletBackend WalletBalance :=
  (utxos.toList.map Prod.snd).foldlM (addCoin spendHeight) {}

end HdWalletBackend

end

end BinaryCoin
