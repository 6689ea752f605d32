/-
  BinaryCoin — chain.cpp: the class `TestnetChain`.

  The object is the state of an `EStateM`: an exception leaves it as the
  source leaves it, so `append_blocks` and `activate_if_more_work` restore
  their copies in a handler of their own.  The store on disk is a parameter
  (`ChainStore`): what is proved here holds whatever it returns.
-/
import BinaryCoin.FromChars
import BinaryCoin.Supply

namespace BinaryCoin

open Cursor Std Text

/-! ## The object -/

/-- The calls that `TestnetChain` makes of `DurableChainStore` and of the file system, on a state
    `σ` of both. -/
structure ChainStore (σ : Type) where
  storeExists : EStateM Exn σ Bool
  createDirectories : EStateM Exn σ Unit
  /-- `load` also assigns to the caller's set of unspent outputs, or clears it. -/
  load : EStateM Exn (σ × UtxoSet) (List StoredBlock)
  commit : List StoredBlock → UtxoSet → EStateM Exn σ Unit
  scanAllBlocks : EStateM Exn σ (List StoredBlock)
  markMigratedLegacy : σ → σ
  /-- `std::filesystem::exists` of a path outside the store. -/
  fileExists : String → σ → Bool
  /-- What an `ifstream` on such a path reads; none when it cannot be opened. -/
  fileText : String → σ → Option Str

/-- A store in memory: the last commit, and no files besides. -/
def ChainStore.memory : ChainStore (Option (List StoredBlock × UtxoSet)) where
  storeExists := do return (← get).isSome
  createDirectories := pure ()
  load s := match s with
    | (some (blocks, utxos), _) => .ok blocks (some (blocks, utxos), utxos)
    | (none, utxos) => .error (runtimeError
        "No valid durable chainstate generation was found; run reindex") (none, utxos)
  commit blocks utxos := set (some (blocks, utxos))
  scanAllBlocks := do
    match ← get with
    | some (blocks, _) => return blocks
    | none => return []
  markMigratedLegacy := id
  fileExists _ _ := false
  fileText _ _ := none

structure TestnetChain (σ : Type) where
  dataDirectory : String
  legacyV3Path : String
  legacyV2Path : String
  legacyV1Path : String
  storage : σ
  blocks : List StoredBlock
  utxos : UtxoSet

namespace TestnetChain

/-- The constructor. -/
def new {σ : Type} (dataDirectory : String) (storage : σ) : TestnetChain σ where
  dataDirectory := dataDirectory
  legacyV3Path := dataDirectory ++ "/chain-v3.tsv"
  legacyV2Path := dataDirectory ++ "/chain-v2.tsv"
  legacyV1Path := dataDirectory ++ "/chain.tsv"
  storage := storage
  blocks := []
  utxos := ∅

end TestnetChain

abbrev ChainM (σ : Type) := EStateM Exn (TestnetChain σ)

section
variable {σ α : Type}

/-- A call of the store. -/
def onStorage (x : EStateM Exn σ α) : ChainM σ α := fun s =>
  match x s.storage with
  | .ok a storage => .ok a { s with storage := storage }
  | .error e storage => .error e { s with storage := storage }

/-- A call of the store that is given `utxos_`. -/
def onStorageUtxos (x : EStateM Exn (σ × UtxoSet) α) : ChainM σ α := fun s =>
  match x (s.storage, s.utxos) with
  | .ok a (storage, utxos) => .ok a { s with storage := storage, utxos := utxos }
  | .error e (storage, utxos) => .error e { s with storage := storage, utxos := utxos }

def setBlocks (blocks : List StoredBlock) : ChainM σ Unit :=
  modify fun s => { s with blocks := blocks }

def setUtxos (utxos : UtxoSet) : ChainM σ Unit := modify fun s => { s with utxos := utxos }

/-- `blocks_.back()`; the callers have made sure that there is a block. -/
def back (blocks : List StoredBlock) : Except Exn StoredBlock :=
  orThrow blocks.getLast? (outOfRange "back() of an empty vector")

/-- A computation on a copy of a set of unspent outputs. -/
def onCopy (x : EStateM Exn UtxoSet α) (utxos : UtxoSet) : Except Exn (α × UtxoSet) :=
  match x.run utxos with
  | .ok a utxos => .ok (a, utxos)
  | .error e _ => .error e

end

/-! ## Small functions -/

/-- `utxo_sets_equal`: the same coins in the same order. -/
def utxoSetsEqual (left right : UtxoSet) : Bool := left.toList = right.toList

def calculateChainwork (blocks : List StoredBlock) : Except Exn ℕ :=
  blocks.foldlM (fun total stored => do return total + (← blockProof stored.block.header.bits)) 0

def legacyFileMagic : Str := str "BINARYCOIN_TESTNET_CHAIN_V3_UTXO"

section
variable [Crypto]

/-- The transaction ids in `blocks` (a `std::set`: only membership is used). -/
def transactionIds (blocks : List StoredBlock) : Except Exn (List Str) :=
  (blocks.flatMap fun stored => stored.block.transactions).mapM Transaction.txid

/-- One entry of the last field of a record. -/
def parseLegacyTransaction (transactionHex : Str) : Except Exn Transaction := do
  throwIf (transactionHex = []) (runtimeError "Empty legacy transaction record")
  Transaction.deserialize (← hexToBytes transactionHex)

/-- The body of the loop of `load_legacy_v3`, on a line that is not empty. -/
def parseLegacyRecord (line : Str) : Except Exn StoredBlock := do
  match fields line 9 with
  | [height, version, time, bits, nonce, previousHash, merkleRoot, hash, network, transactions] =>
    let height ← parseU64 "Invalid decimal height" height
    let version ← parseI32 "Invalid decimal version" version
    let time ← parseU32 10 "Invalid decimal time" time
    let bits ← parseU32 16 "Invalid hexadecimal bits" bits
    let nonce ← parseU32 10 "Invalid decimal nonce" nonce
    let header : BlockHeader := ⟨version, previousHash, merkleRoot, time, bits, nonce⟩
    throwIf ((← header.hashHex) ≠ hash)
      (runtimeError ("Legacy block hash mismatch at height " ++ toString height.toNat))
    throwIf (network ≠ str "testnet") (runtimeError "Legacy record belongs to another network")
    let transactions ← if transactions ≠ str "-" then
        (fields transactions 59).mapM parseLegacyTransaction
      else pure []
    return ⟨height, header, transactions⟩
  | _ => throw (runtimeError "Malformed legacy chain record")

/-- Whether `left` and `right` have blocks with equal hashes, from the first on: how many. -/
def commonCount : List StoredBlock → List StoredBlock → Except Exn ℕ
  | a :: left, b :: right => do
    if (← a.hashHex) = (← b.hashHex) then return (← commonCount left right) + 1
    return 0
  | _, _ => return 0

/-- The transactions of the disconnected blocks that the candidate does not have. -/
def disconnectedTransactions (candidateTxids : List Str) (disconnected : List StoredBlock) :
    Except Exn (List Transaction) :=
  (disconnected.flatMap fun stored => stored.block.transactions.tail).foldlM
    (fun result transaction => do
      if (← transaction.txid) ∈ candidateTxids then return result
      return result ++ [transaction]) []

/-! ### Branches of the block store -/

/-- `by_hash`: the first record of every hash. -/
def indexByHash (records : List StoredBlock) : Except Exn (ExtTreeMap Str StoredBlock) :=
  records.foldlM (fun byHash block => do return byHash.insertIfNew (← block.hashHex) block) ∅

/-- The loop from a tip back to the genesis block: the branch, first block first, and whether it is
    complete.  A block is visited once, so `byHash.size + 1` rounds are enough. -/
def walkBack (byHash : ExtTreeMap Str StoredBlock) :
    ℕ → List Str → List StoredBlock → StoredBlock → Except Exn (List StoredBlock × Bool)
  | 0, _, branch, _ => return (branch, false)
  | rounds + 1, visited, branch, current => do
    let hash ← current.hashHex
    if hash ∈ visited then return (branch, false)
    if hash = testnetGenesisHash then return (current :: branch, true)
    match byHash[current.block.header.previousHash]? with
    | none => return (current :: branch, false)
    | some parent => walkBack byHash rounds (hash :: visited) (current :: branch) parent

/-- The body of the loop over the tips: the best branch so far and its work. -/
def considerTip (byHash : ExtTreeMap Str StoredBlock) (best : List StoredBlock × ℤ)
    (tip : StoredBlock) : Except Exn (List StoredBlock × ℤ) := do
  let (branch, complete) ← walkBack byHash (byHash.size + 1) [] [] tip
  if ¬ complete then return best
  match (do verifyBlocks branch; calculateChainwork branch) with
  | .ok work => return if (work : ℤ) > best.2 then (branch, (work : ℤ)) else best
  | .error _ => return best

/-- The first branch with the most work among the valid ones. -/
def bestBranch (records : List StoredBlock) : Except Exn (List StoredBlock) := do
  throwIf (records = []) (runtimeError "Append-only block store contains no valid records")
  let byHash ← indexByHash records
  throwIf (byHash[testnetGenesisHash]?.isNone)
    (runtimeError "Block store does not contain testnet genesis")
  let (best, _) ← byHash.values.foldlM (considerTip byHash) ([], -1)
  throwIf (best = [])
    (runtimeError "No fully valid chain could be reconstructed from block records")
  return best

/-! ## The member functions -/

namespace TestnetChain
variable {σ : Type}

def verify : ChainM σ Unit := do verifyBlocks (← get).blocks

def save (S : ChainStore σ) : ChainM σ Unit := do
  let s ← get
  onStorage (S.commit s.blocks s.utxos)

/-- `utxos_ = build_utxo_set(blocks_)` -/
def rebuild : ChainM σ Unit := do setUtxos (← buildUtxoSet (← get).blocks)

def loadLegacyV3 (S : ChainStore σ) : ChainM σ Unit := do
  let s ← get
  let text ← orThrow (S.fileText s.legacyV3Path s.storage)
    (runtimeError ("Unable to open legacy chain file: " ++ s.legacyV3Path))
  match lines text with
  | [] => throw (runtimeError "Invalid or unsupported legacy chain file header")
  | magic :: records =>
    throwIf (magic ≠ legacyFileMagic)
      (runtimeError "Invalid or unsupported legacy chain file header")
    setBlocks []
    forM (records.filter (· ≠ [])) fun line => do
      let stored ← parseLegacyRecord line
      setBlocks ((← get).blocks ++ [stored])

/-- The part that `initialize` and `load` share. -/
def migrateLegacy (S : ChainStore σ) : ChainM σ Unit := do
  loadLegacyV3 S
  verify
  rebuild
  modify fun s => { s with storage := S.markMigratedLegacy s.storage }
  save S

def load (S : ChainStore σ) : ChainM σ Unit := do
  if ← onStorage S.storeExists then
    setBlocks (← onStorageUtxos S.load)
    verify
    let s ← get
    let rebuilt ← buildUtxoSet s.blocks
    if s.utxos.isEmpty ∧ ¬ rebuilt.isEmpty then
      setUtxos rebuilt
      save S
    else
      throwIf (¬ utxoSetsEqual s.utxos rebuilt) (runtimeError
        "Committed UTXO snapshot does not match the active block index; run reindex")
  else
    let s ← get
    throwIf (¬ S.fileExists s.legacyV3Path s.storage)
      (runtimeError "Durable chainstate does not exist; run init")
    migrateLegacy S

def initializeChain (S : ChainStore σ) : ChainM σ Unit := do
  throwIf ((← get).dataDirectory = "") (invalidArgument "Data directory must not be empty")
  onStorage S.createDirectories
  if ← onStorage S.storeExists then load S
  else
    let s ← get
    if S.fileExists s.legacyV3Path s.storage then migrateLegacy S
    else
      throwIf (S.fileExists s.legacyV2Path s.storage ∨ S.fileExists s.legacyV1Path s.storage)
        (runtimeError
          "Found an unsupported pre-v0.3 disposable chain. Use a fresh --datadir or remove the old directory.")
      setBlocks [⟨0, ← testnetGenesisBlock⟩]
      setUtxos ∅
      verify
      save S

def reindex (S : ChainStore σ) : ChainM σ Unit := do
  setBlocks (← bestBranch (← onStorage S.scanAllBlocks))
  rebuild
  save S

/-- The handlers of `append_blocks` and `activate_if_more_work`. -/
def orRestore (x : ChainM σ Unit) : ChainM σ Unit := do
  let original ← get
  tryCatch x fun e => do
    setBlocks original.blocks
    setUtxos original.utxos
    throw e

/-- `if (blocks_.empty()) initialize();` -/
def initializeIfEmpty (S : ChainStore σ) : ChainM σ Unit := do
  if (← get).blocks = [] then initializeChain S

/-- The body of the loop of `append_blocks`. -/
def appendBlock (stored : StoredBlock) : ChainM σ Unit := do
  let blocks := (← get).blocks
  let last ← back blocks
  throwIf (stored.height ≠ last.height + 1) (runtimeError "Received non-contiguous block height")
  throwIf (stored.block.header.previousHash ≠ (← last.hashHex))
    (runtimeError "Received block does not extend local tip")
  setBlocks (blocks ++ [stored])

def appendBlocks (S : ChainStore σ) (incoming : List StoredBlock) : ChainM σ Unit :=
  if incoming = [] then pure ()
  else do
    initializeIfEmpty S
    orRestore do
      forM incoming appendBlock
      verify
      rebuild
      save S

def tip (s : TestnetChain σ) : Except Exn StoredBlock :=
  orThrow s.blocks.getLast? (runtimeError "Chain is not initialized")

end TestnetChain

structure ChainActivationResult where
  activated : Bool
  oldHeight : UInt64
  newHeight : UInt64
  forkHeight : UInt64
  disconnectedBlocks : ℕ
  connectedBlocks : ℕ
  oldChainwork : ℕ
  candidateChainwork : ℕ
  disconnectedTransactions : List Transaction

namespace TestnetChain
variable {σ : Type}

def activateIfMoreWork (S : ChainStore σ) (candidate : List StoredBlock) :
    ChainM σ ChainActivationResult := do
  verifyBlocks candidate
  let s ← get
  let oldTip ← s.tip
  let newTip ← back candidate
  let oldChainwork ← calculateChainwork s.blocks
  let candidateChainwork ← calculateChainwork candidate
  let common ← commonCount s.blocks candidate
  throwIf (common = 0) (runtimeError "Candidate does not share BinaryCoin testnet genesis")
  let result : ChainActivationResult := {
    activated := false
    oldHeight := oldTip.height
    newHeight := newTip.height
    forkHeight := UInt64.ofNat (common - 1)
    disconnectedBlocks := s.blocks.length - common
    connectedBlocks := candidate.length - common
    oldChainwork := oldChainwork
    candidateChainwork := candidateChainwork
    disconnectedTransactions := [] }
  if candidateChainwork ≤ oldChainwork then return result
  let candidateTxids ← transactionIds candidate
  let disconnected ← disconnectedTransactions candidateTxids (s.blocks.drop common)
  orRestore do
    setBlocks candidate
    verify
    rebuild
    save S
  return { result with activated := true, disconnectedTransactions := disconnected }

/-- The loop of `generate` from the block number `generated` on, with the set `current`; `clock` is
    the time at which each block is mined. -/
def generateFrom (clock : ℕ → Int64) (coinbaseScriptPubkey : Bytes)
    (pending : List Transaction) : ℕ → ℕ → UtxoSet → ChainM σ UtxoSet
  | 0, _, current => return current
  | count + 1, generated, current => do
    let blocks := (← get).blocks
    let previous ← back blocks
    let height := previous.height + 1
    let transactions := if generated = 0 then pending else []
    let (fees, candidate) ←
      onCopy (applyTransactions "Candidate block fee overflow" height 0 transactions) current
    let block ← mineTestnetBlock (clock generated) height (← previous.hashHex)
      previous.block.header.time testnetBits coinbaseScriptPubkey transactions fees
    let coinbase ← orThrow block.transactions.head? (outOfRange "front() of an empty vector")
    let ((), candidate) ← onCopy (addCoinbaseOutputs coinbase height) candidate
    setBlocks (blocks ++ [⟨height, block⟩])
    generateFrom clock coinbaseScriptPubkey pending count (generated + 1) candidate

def generate (S : ChainStore σ) (clock : ℕ → Int64) (count : UInt64) (coinbaseScriptPubkey : Bytes)
    (pending : List Transaction) : ChainM σ Unit := do
  initializeIfEmpty S
  let current ← generateFrom clock coinbaseScriptPubkey pending count.toNat 0 (← get).utxos
  verify
  setUtxos current
  save S

end TestnetChain

end

end BinaryCoin
