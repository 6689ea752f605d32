/-
  BinaryCoin — storage.cpp: `DurableChainStore`.

  A commit appends the blocks that are missing to the block file, writes an
  index and a snapshot of the coins under the number of a new generation, and
  then replaces the manifest, which names them.  It may be interrupted anywhere:
  `write_all` is taken byte by byte, and every operation of the file system may
  fail.  Reads in the middle of a file do not fail.
-/
import BinaryCoin.BlockFile
import BinaryCoin.Lib.CrashLogic
import BinaryCoin.Lib.Scan
import BinaryCoin.TestnetChain

namespace BinaryCoin

open Crash Cursor Std Text

/-! ## The files -/

/-- `blocks/blk00000.dat`, and the files in `chainstate` by name. -/
structure Disk where
  blockFile : Option BlockFile
  chainstate : ExtTreeMap Str Bytes

namespace Disk

/-- `read_file_bytes` -/
def read (d : Disk) (name : Str) : Except Exn Bytes :=
  orThrow d.chainstate[name]? (runtimeError "Unable to open chainstate file")

def write (name : Str) (bytes : Bytes) (d : Disk) : Disk :=
  { d with chainstate := d.chainstate.insert name bytes }

def writeByte (name : Str) (byte : UInt8) (d : Disk) : Disk :=
  d.write name (d.chainstate[name]?.getD [] ++ [byte])

def remove (name : Str) (d : Disk) : Disk := { d with chainstate := d.chainstate.erase name }

def rename (source target : Str) (d : Disk) : Disk :=
  match d.chainstate[source]? with
  | some bytes => (d.remove source).write target bytes
  | none => d

/-- `file_size_or_zero` of the block file. -/
def blockFileSize (d : Disk) : ℕ := (d.blockFile.map fun file => file.bytes.length).getD 0

/-- `open_append_file` creates the file. -/
def openBlocks (d : Disk) : Disk :=
  { d with blockFile := some (d.blockFile.getD ⟨[], by decide⟩) }

/-- A byte at the end of the block file, if there is room for it. -/
def appendByte (byte : UInt8) (d : Disk) : Disk :=
  match d.blockFile with
  | none => d
  | some file =>
    if h : (file.bytes ++ [byte]).length < 2 ^ 64 then
      { d with blockFile := some ⟨file.bytes ++ [byte], h⟩ }
    else d

end Disk

/-! ## Names -/

def manifestName : Str := str "manifest-v1"

def generationName (name : String) (generation : UInt64) : Str :=
  str name ++ zeroFill 20 (decimal generation.toNat) ++ str ".tsv"

def indexName (generation : UInt64) : Str := generationName "block-index-v1-" generation

def utxoName (generation : UInt64) : Str := generationName "utxo-v1-" generation

def generationFromIndexFilename (filename : Str) : Option UInt64 :=
  let start := str "block-index-v1-"
  let ending := str ".tsv"
  if start <+: filename ∧ ending <:+ filename then
    match parseU64 "Invalid index generation"
        ((filename.drop start.length).take (filename.length - start.length - ending.length)) with
    | .ok generation => some generation
    | .error _ => none
  else none

namespace Disk

/-- `available_generations`: the greatest first. -/
def availableGenerations (d : Disk) : List UInt64 :=
  ((d.chainstate.keys.filterMap generationFromIndexFilename).filter fun generation =>
    d.chainstate.contains (utxoName generation)).dedup.insertionSort (· ≥ ·)

/-- `DurableChainStore::exists` -/
def storeExists (d : Disk) : Bool :=
  d.chainstate.contains manifestName || (!d.availableGenerations.isEmpty && d.blockFile.isSome)

end Disk

/-! ## Loading -/

section
variable [Crypto]

def sha256Hex (bytes : Bytes) : Str := bytesToHex (sha256 bytes).bytes

/-- The body of the loop of `load_indexed_chain`. -/
def loadIndexed (file : Bytes) (entry : IndexEntry) : Except Exn StoredBlock := do
  let failure := runtimeError "Block index points to the wrong block record"
  let block ← readRecordAt file entry.offset.toNat (some entry.payloadSize)
  throwIf (block.height ≠ entry.height) failure
  throwIf ((← block.hashHex) ≠ entry.hash) failure
  return block

def loadIndexedChain (file : Option BlockFile) (entries : List IndexEntry) :
    Except Exn (List StoredBlock) := do
  let file ← orThrow file (runtimeError "Unable to open block data file")
  entries.mapM (loadIndexed file.bytes)

namespace Disk

def loadManifestGeneration (d : Disk) (manifest : Manifest) (verifyHashes : Bool) :
    Except Exn (List StoredBlock × UtxoSet) := do
  let index ← d.read manifest.indexFile
  let utxo ← d.read manifest.utxoFile
  if verifyHashes then
    throwIf (sha256Hex index ≠ manifest.indexSha256) (runtimeError "Block-index checksum mismatch")
    throwIf (sha256Hex utxo ≠ manifest.utxoSha256) (runtimeError "UTXO snapshot checksum mismatch")
  let failure := runtimeError "Chainstate manifest tip does not match block index"
  let entries ← parseIndexText index
  let blocks ← loadIndexedChain d.blockFile entries
  let last ← orThrow blocks.getLast? (outOfRange "back() of an empty vector")
  throwIf (last.height ≠ manifest.height) failure
  throwIf ((← last.hashHex) ≠ manifest.bestblock) failure
  let utxos ← parseUtxoText utxo manifest.height manifest.bestblock
  return (blocks, utxos)

/-- The first `try` block of `load`. -/
def loadManifest (d : Disk) : Except Exn (Manifest × List StoredBlock × UtxoSet) := do
  let manifest ← parseManifestText (← d.read manifestName)
  return (manifest, ← d.loadManifestGeneration manifest true)

/-- The `try` block in the loop of `load`. -/
def loadGeneration (d : Disk) (generation : UInt64) : Except Exn (List StoredBlock) := do
  let entries ← parseIndexText (← d.read (indexName generation))
  loadIndexedChain d.blockFile entries

/-- The loop of `load` over the generations. -/
def recover (d : Disk) : List UInt64 → Except Exn (List StoredBlock)
  | [] => .error (runtimeError "No valid durable chainstate generation was found; run reindex")
  | generation :: generations =>
    match d.loadGeneration generation with
    | .ok [] => d.recover generations
    | .ok blocks => .ok blocks
    | .error _ => d.recover generations

/-- What `load` finds: without a valid manifest, the coins are left to be rebuilt. -/
def load (d : Disk) : Except Exn (List StoredBlock × UtxoSet) :=
  match d.loadManifest with
  | .ok (_, blocks, utxos) => .ok (blocks, utxos)
  | .error _ => do return (← d.recover d.availableGenerations, ∅)

end Disk

/-! ## Committing -/

abbrev StoreM := Program Disk Exn

/-- `create_directories`, `FileLock`, `fsync`, `close` and the like. -/
def idle : StoreM Unit := operation id

/-- `scan_catalog` -/
def scanBlockFile : StoreM (ExtTreeMap Str IndexEntry) := do
  idle
  scanCatalog (← contents).blockFile

/-- The temporary file of `atomic_write`. -/
def temporary (name : Str) : Str := name ++ str ".tmp"

def atomicWrite (name : Str) (bytes : Bytes) : StoreM Unit := do
  idle
  operation (Disk.write (temporary name) [])
  tryCatch (do
    forM bytes fun byte => operation (Disk.writeByte (temporary name) byte)
    idle
    idle) fun e => do
      attempt (operation (Disk.remove (temporary name)))
      throw e
  -- `replace_file_atomically`
  tryCatch (operation (Disk.rename (temporary name) name)) fun e => do
    attempt (operation (Disk.remove (temporary name)))
    throw e
  idle

/-- A byte of a record, at the end of the block file. -/
def writeBlockByte (byte : UInt8) : StoreM Unit := do
  throwIf ((← contents).blockFileSize + 1 ≥ 2 ^ 64)
    (runtimeError "Unable to write durable chainstate file")
  operation (Disk.appendByte byte)

/-- The loop of `commit` over the blocks, with the offset of the next record: whether a record has
    been appended. -/
def appendMissing : List StoredBlock → ExtTreeMap Str IndexEntry → UInt64 → Bool → StoreM Bool
  | [], _, _, appended => return appended
  | block :: blocks, catalog, offset, appended => do
    let hash ← block.hashHex
    if catalog.contains hash then appendMissing blocks catalog offset appended
    else
      let record ← makeRecordBytes block
      forM record writeBlockByte
      let entry : IndexEntry :=
        ⟨block.height, offset, UInt64.ofNat (record.length - blockRecordHeaderSize), hash⟩
      appendMissing blocks (catalog.insertIfNew hash entry) (offset + UInt64.ofNat record.length) true

/-- The part of `commit` up to `fsync_directory`. -/
def appendBlockFile (blocks : List StoredBlock) : StoreM Unit := do
  let catalog ← scanBlockFile
  operation Disk.openBlocks
  idle
  let appended ← appendMissing blocks catalog (UInt64.ofNat (← contents).blockFileSize) false
  if appended then idle
  idle
  idle

/-- The generation of the next commit. -/
def Disk.nextGeneration (d : Disk) : UInt64 :=
  let newest := match d.availableGenerations with
    | [] => 1
    | generation :: _ => generation + 1
  match d.chainstate[manifestName]? with
  | none => newest
  | some bytes =>
    match parseManifestText bytes with
    | .ok manifest => manifest.generation + 1
    | .error _ => newest

/-- The body of the loop of `manifest_for_generation`. -/
def indexEntry (catalog : ExtTreeMap Str IndexEntry) (block : StoredBlock) : Except Exn IndexEntry := do
  let entry ← orThrow catalog[(← block.hashHex)]?
    (runtimeError "Committed block is missing from append-only block store")
  return { entry with height := block.height }

def manifestForGeneration (generation : UInt64) (blocks : List StoredBlock) (utxos : UtxoSet) :
    StoreM Manifest := do
  let catalog ← scanBlockFile
  let entries ← (blocks.mapM (indexEntry catalog) : Except Exn _)
  let last ← orThrow blocks.getLast? (outOfRange "back() of an empty vector")
  let hash ← last.hashHex
  let indexText := makeIndexText entries
  let utxoText := makeUtxoText utxos last.height hash
  atomicWrite (indexName generation) indexText
  atomicWrite (utxoName generation) utxoText
  return {
    generation := generation
    height := last.height
    bestblock := hash
    indexFile := indexName generation
    indexSha256 := sha256Hex indexText
    utxoFile := utxoName generation
    utxoSha256 := sha256Hex utxoText
    blockFileSize := UInt64.ofNat (← contents).blockFileSize }

/-- `cleanup_old_generations`: errors of the removals are ignored. -/
def cleanupOldGenerations (current : UInt64) : StoreM Unit := do
  idle
  forM (← contents).availableGenerations fun generation => do
    if generation = current ∨ (current > 0 ∧ generation + 1 = current) then return
    attempt (operation (Disk.remove (indexName generation)))
    attempt (operation (Disk.remove (utxoName generation)))

/-- `DurableChainStore::commit`; `migrated` is `stats_.migrated_legacy`. -/
def commitChain (migrated : Bool) (blocks : List StoredBlock) (utxos : UtxoSet) : StoreM Unit := do
  throwIf (blocks = []) (runtimeError "Cannot commit an empty active chain")
  idle
  idle
  idle
  appendBlockFile blocks
  let generation := (← contents).nextGeneration
  let manifest ← manifestForGeneration generation blocks utxos
  -- the commit point
  atomicWrite manifestName (makeManifestText manifest)
  if migrated then
    atomicWrite (str "migrated-from-chain-v3") (str "migrated from chain-v3.tsv\n")
  cleanupOldGenerations generation

end

/-! ## The object -/

structure DurableChainStore where
  machine : Machine Disk Exn
  migratedLegacy : Bool
  /-- the files of earlier versions -/
  legacyFiles : String → Option Str

namespace DurableChainStore

def onMachine {α : Type} (x : StoreM α) : EStateM Exn DurableChainStore α := fun s =>
  match x s.machine with
  | .ok a machine => .ok a { s with machine := machine }
  | .error e machine => .error e { s with machine := machine }

variable [Crypto]

def load : EStateM Exn (DurableChainStore × UtxoSet) (List StoredBlock) := fun (s, utxos) =>
  match onMachine (do idle; idle; idle; return (← (← contents).load)) s with
  | .ok (blocks, loaded) s => .ok blocks (s, loaded)
  | .error e s => .error e (s, utxos)

def commit (blocks : List StoredBlock) (utxos : UtxoSet) : EStateM Exn DurableChainStore Unit := do
  onMachine (commitChain (← get).migratedLegacy blocks utxos)

end DurableChainStore

/-- The store of `TestnetChain`. -/
def ChainStore.durable [Crypto] : ChainStore DurableChainStore where
  storeExists := do return (← get).machine.disk.storeExists
  createDirectories := DurableChainStore.onMachine idle
  load := DurableChainStore.load
  commit := DurableChainStore.commit
  scanAllBlocks := do BinaryCoin.scanAllBlocks (← get).machine.disk.blockFile
  markMigratedLegacy s := { s with migratedLegacy := true }
  fileExists path s := (s.legacyFiles path).isSome
  fileText path s := s.legacyFiles path

end BinaryCoin
