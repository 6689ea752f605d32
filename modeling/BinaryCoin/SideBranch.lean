/-
  BinaryCoin — branch_store.cpp: the class `SideBranchStore`.

  A list of blocks with different header hashes, in the order in which they
  were put, and the file that holds it.  The store looks blocks up by the hash
  of their headers only.
-/
import BinaryCoin.BlockRecord
import BinaryCoin.Lib.Text

namespace BinaryCoin

open Cursor Text

/-- The object: its blocks, and the text of the file, if there is one. -/
structure SideBranchStore where
  blocks : List StoredBlock
  file : Option Str

abbrev SideBranchM := EStateM Exn SideBranchStore

def sideBranchMagic : Str := str "BINARYCOIN_SIDE_BRANCH_V1"

section
variable [Crypto]

/-- `find_block` of net.cpp, and the search of `SideBranchStore`: the first block with a hash. -/
def findBlock (hash : Str) : List StoredBlock → Except Exn (Option StoredBlock)
  | [] => return none
  | stored :: rest => do
    if (← stored.hashHex) = hash then return some stored
    findBlock hash rest

namespace SideBranchStore

def setBlocks (blocks : List StoredBlock) : SideBranchM Unit :=
  modify fun s => { s with blocks := blocks }

def put (block : StoredBlock) : SideBranchM Unit := do
  let hash ← block.hashHex
  let blocks := (← get).blocks
  match ← findBlock hash blocks with
  | none => setBlocks (blocks ++ [block])
  | some _ => pure ()

/-- The body of the loop of `load`, on a line that is not empty. -/
def loadRecord (hex : Str) : SideBranchM Unit := do
  match ← deserializeStoredBlocks (← hexToBytes hex) with
  | [block] => put block
  | _ => throw (runtimeError "Invalid side-branch record")

def load : SideBranchM Unit := do
  setBlocks []
  match (← get).file with
  | none => pure ()
  | some text =>
    match lines text with
    | [] => throw (runtimeError "Invalid side-branch store header")
    | magic :: records =>
      throwIf (magic ≠ sideBranchMagic) (runtimeError "Invalid side-branch store header")
      forM (records.filter (· ≠ [])) loadRecord

/-- One line of the file. -/
def record (block : StoredBlock) : Except Exn Str := do
  return bytesToHex (← serializeStoredBlocks [block] 0 1)

/-- What `save` writes. -/
def fileText (blocks : List StoredBlock) : Except Exn Str := do
  let records ← blocks.mapM record
  return unlines (sideBranchMagic :: records)

/-- The file is replaced at once, after all of it has been written. -/
def save : SideBranchM Unit := do
  let text ← fileText (← get).blocks
  modify fun s => { s with file := some text }

def putMany (blocks : List StoredBlock) : SideBranchM Unit := do
  forM blocks put
  save

/-- The blocks whose hash is not that of an active block. -/
def inactive (activeBlocks blocks : List StoredBlock) : Except Exn (List StoredBlock) := do
  let activeHashes ← activeBlocks.mapM StoredBlock.hashHex
  blocks.filterM fun stored => do return (← stored.hashHex) ∉ activeHashes

def removeActive (activeBlocks : List StoredBlock) : SideBranchM Unit := do
  setBlocks (← inactive activeBlocks (← get).blocks)
  save

def find (s : SideBranchStore) (hash : Str) : Except Exn (Option StoredBlock) :=
  findBlock hash s.blocks

end SideBranchStore

/-! ## Blocks by their hash -/

/-- The hash of a block's header. -/
def StoredBlock.id (stored : StoredBlock) : Str := hashToDisplayHex (sha256d stored.block.header.encode)

theorem StoredBlock.Canonical.hashHex_id {stored : StoredBlock} (h : stored.Canonical) :
    stored.hashHex = .ok stored.id := h.hashHex

/-- The search among blocks that all have a hash. -/
theorem findBlock_ok {hash : Str} {blocks : List StoredBlock} (h : ∀ b ∈ blocks, b.Canonical) :
    findBlock hash blocks = .ok (blocks.find? fun b => b.id = hash) := by
  induction blocks with
  | nil => rfl
  | cons b bs ih =>
    obtain ⟨hb, hbs⟩ := List.forall_mem_cons.1 h
    simp only [findBlock, hb.hashHex_id, ih hbs, List.find?_cons]
    by_cases hid : b.id = hash
    · simp [hid, bind, Except.bind, pure, Except.pure]
    · simp [hid, bind, Except.bind]

end

end BinaryCoin
