/-
  BinaryCoin — net.cpp: `sync_from_peer`.

  The call talks to one peer: it sends a message, and takes messages in the
  order in which the peer has sent them.  What the peer sends, and what becomes
  of it, is its answer to every message of the call; nothing comes later.
-/
import BinaryCoin.Candidate
import BinaryCoin.PeerServer

namespace BinaryCoin

open Cursor Std Stateful

/-! ## The connection -/

/-- The other end: what it becomes when a message arrives, and what it sends back. -/
abbrev Remote (π : Type) := π → Message → π × List Message

/-- The objects of the call, and the connection. -/
structure PeerSync (σ π : Type) where
  directory : DataDirectory σ
  peers : PeerStore
  remote : π
  /-- messages of the peer that have not been received -/
  inbox : List Message
  /-- readings of the clock and of `std::random_device`, for every version that is sent -/
  draws : ℕ → Int64 × UInt64

abbrev PeerSyncM (σ π : Type) := EStateM Exn (PeerSync σ π)

section
variable {σ π α : Type}

def inDirectory (x : SectionM σ α) : PeerSyncM σ π α := fun s =>
  match x s.directory with
  | .ok a d => .ok a { s with directory := d }
  | .error e d => .error e { s with directory := d }

def onPeers (x : PeerM α) : PeerSyncM σ π α := fun s =>
  match x s.peers with
  | .ok a peers => .ok a { s with peers := peers }
  | .error e peers => .error e { s with peers := peers }

/-- The blocks of the object `chain`. -/
def chainBlocks : PeerSyncM σ π (List StoredBlock) := return (← get).directory.node.chain.blocks

def draw : PeerSyncM σ π (Int64 × UInt64) := do
  let s ← get
  set { s with draws := fun n => s.draws (n + 1) }
  return s.draws 0

/-- `receive_message` -/
def nextMessage : PeerSyncM σ π Message := do
  match (← get).inbox with
  | [] => throw (runtimeError "Peer closed connection unexpectedly")
  | message :: inbox =>
    modify fun s => { s with inbox := inbox }
    return message

variable [Crypto] (remote : Remote π)

/-- `send_message` -/
def sendToPeer (command : Str) (payload : Bytes) : PeerSyncM σ π Unit := do
  let _ ← encodeP2pFrame command payload
  modify fun s =>
    let (peer, messages) := remote s.remote ⟨command, payload⟩
    { s with remote := peer, inbox := s.inbox ++ messages }

def sendVersion (command : Str) : PeerSyncM σ π Unit := do
  let blocks ← chainBlocks
  let (now, nonce) ← draw
  sendToPeer remote command (← serializeVersion (← localVersion now nonce blocks))

def clientHandshake : PeerSyncM σ π PeerVersion := do
  sendVersion remote (str "version")
  let version ← nextMessage
  expectCommand version (str "version")
  let peer ← deserializeVersion version.payload
  sendToPeer remote (str "verack") []
  let verack ← nextMessage
  expectCommand verack (str "verack")
  throwIf (verack.payload ≠ []) (runtimeError "verack payload must be empty")
  return peer

variable [InetText]

/-- The records of a message `addrv2`. -/
def mergeAddresses (payload : Bytes) : PeerSyncM σ π Unit := do
  forM (← deserializeAddrv2 payload) fun record => onPeers (PeerStore.addOrUpdate record)
  onPeers PeerStore.save

variable (S : ChainStore σ)

/-- A message that `receive_until` does not wait for. -/
def handleUnrelated (message : Message) : PeerSyncM σ π Unit := do
  if message.command = str "getaddr" then
    sendToPeer remote (str "addrv2") (serializeAddrv2 (← get).peers.records)
  else if message.command = str "addrv2" then mergeAddresses message.payload
  else if message.command = str "ping" then
    throwIf (message.payload.length ≠ 8) (runtimeError "ping nonce must be 8 bytes")
    sendToPeer remote (str "pong") message.payload
  else if message.command = str "getstatus" then
    inDirectory (onNode (onChain (TestnetChain.load S)))
    sendVersion remote (str "status")
  else if message.command ∈ [str "inv", str "status", str "pong", str "txack"] then pure ()
  else throw (runtimeError ("Unexpected P2P command while waiting for response: " ++
    commandText message.command))

/-- The loop of `receive_until`. -/
def receiveAmong (expected : List Str) : ℕ → PeerSyncM σ π Message
  | 0 => throw (runtimeError "Too many unrelated P2P messages while waiting for response")
  | attempts + 1 => do
    let message ← nextMessage
    if message.command ∈ expected then return message
    handleUnrelated remote S message
    receiveAmong expected attempts

def receiveUntil (expected : List Str) : PeerSyncM σ π Message :=
  receiveAmong remote S expected 10000

/-! ## Headers -/

/-- A round of the loop over the headers. -/
def headersRound (peer : PeerVersion) (s : HeaderDownload) :
    PeerSyncM σ π (Bool × HeaderDownload) := do
  sendToPeer remote (str "getheaders") (← serializeGetheaders ⟨s.locator, zeroHashHex⟩)
  let response ← receiveUntil remote S [str "headers"]
  let blocks ← chainBlocks
  match (acceptBatch peer ⟨blocks, response.payload⟩).run { s with requests := s.requests + 1 } with
  | .ok done s => return (done, s)
  | .error e _ => throw e

/-- The loop over the headers, up to a number of rounds: none if more rounds follow. -/
def fetchHeaders (peer : PeerVersion) : ℕ → HeaderDownload → PeerSyncM σ π (Option HeaderDownload)
  | 0, _ => return none
  | rounds + 1, s => do
    let (done, s) ← headersRound remote S peer s
    if done then return some s
    fetchHeaders peer rounds s

/-! ## Blocks -/

/-- `bodies` and `missing` -/
structure CandidateBodies where
  bodies : ExtTreeMap Str StoredBlock
  missing : List InventoryItem

omit [InetText] in
/-- The body of the loop that looks for the blocks in the store. -/
def reuseBody (branches : List StoredBlock) (c : CandidateBodies) (record : HeaderRecord) :
    Except Exn CandidateBodies := do
  let hash ← record.header.hashHex
  let missing : CandidateBodies := { c with missing := c.missing ++ [⟨.block, hash⟩] }
  match ← findBlock hash branches with
  | none => return missing
  | some stored =>
    if stored.height ≠ record.height then return missing
    if (← stored.block.header.serialize) ≠ (← record.header.serialize) then return missing
    return { c with bodies := c.bodies.insertIfNew hash stored }

omit [InetText] in
def reuseBodies (branches : List StoredBlock) (headers : List HeaderRecord) :
    Except Exn CandidateBodies := headers.foldlM (reuseBody branches) ⟨∅, []⟩

/-- The requests of at most `MAX_INVENTORY_ITEMS` blocks each. -/
def inventoryBatches (items : List InventoryItem) : List (List InventoryItem) :=
  if items = [] then []
  else items.take maxInventoryItems :: inventoryBatches (items.drop maxInventoryItems)
termination_by items.length
decreasing_by
  rename_i hne
  have hpos := List.length_pos_of_ne_nil hne
  rw [List.length_drop, maxInventoryItems]
  omega

/-- The answer to one item of a request. -/
def receiveRequested (headers : List HeaderRecord) (bodies : ExtTreeMap Str StoredBlock) :
    PeerSyncM σ π (ExtTreeMap Str StoredBlock) := do
  let response ← receiveUntil remote S [str "block", str "notfound"]
  throwIf (response.command = str "notfound")
    (runtimeError "Peer did not provide a requested block body")
  match ← deserializeStoredBlocks response.payload with
  | [stored] =>
    let failure := runtimeError "Downloaded block does not match announced header"
    let hash ← stored.hashHex
    let record ← orThrow (← findHeader hash headers) failure
    throwIf (stored.height ≠ record.height) failure
    throwIf ((← stored.block.header.serialize) ≠ (← record.header.serialize)) failure
    inDirectory (onBranches (SideBranchStore.put stored))
    return bodies.insertIfNew hash stored
  | _ => throw (runtimeError "Peer block response count mismatch")

def fetchBatch (headers : List HeaderRecord) (bodies : ExtTreeMap Str StoredBlock)
    (batch : List InventoryItem) : PeerSyncM σ π (ExtTreeMap Str StoredBlock) := do
  sendToPeer remote (str "getdata") (← serializeInventory batch)
  batch.foldlM (fun bodies _ => receiveRequested remote S headers bodies) bodies

omit [InetText] in
/-- `candidate`, once there are bodies for all headers. -/
def candidateChain (kept : List StoredBlock) (headers : List HeaderRecord)
    (bodies : ExtTreeMap Str StoredBlock) : Except Exn (List StoredBlock) := do
  let found ← headers.mapM fun record => do
    orThrow bodies[(← record.header.hashHex)]? (runtimeError "Missing candidate block body")
  return kept ++ found

/-! ## The candidate -/

omit [InetText] in
/-- What follows the check of the candidate's work. -/
def activateBranch (blocks : List StoredBlock) (forkIndex : ℕ) (candidate : List StoredBlock) :
    SectionM σ ChainActivationResult := do
  if forkIndex + 1 < blocks.length then
    onBranches (SideBranchStore.putMany (blocks.drop (forkIndex + 1)))
  let activation ← onNode (onChain (TestnetChain.activateIfMoreWork S candidate))
  if activation.activated then
    onBranches (SideBranchStore.removeActive (← get).node.chain.blocks)
  return activation

/-- What the call reports of the chain; the numbers are those of headers, of blocks received and of
    blocks found in the store. -/
structure ChainSync where
  activation : ChainActivationResult
  candidateWork : Str
  headersReceived : ℕ
  blocksReceived : ℕ
  blocksReused : ℕ

/-- The download of a chain that is not the object's: none if more rounds of headers follow. -/
def syncCandidate (peer : PeerVersion) (rounds : ℕ) : PeerSyncM σ π (Option ChainSync) := do
  throwIf (peer.bestHeight > 1000000)
    (runtimeError "Peer testnet chain height exceeds synchronization safety limit")
  let blocks ← chainBlocks
  let locator ← makeBlockLocator blocks
  match ← fetchHeaders remote S peer rounds ⟨[], locator, blocks.length, 0⟩ with
  | none => return none
  | some download =>
    let kept := (← chainBlocks).take (download.forkIndex + 1)
    let reused ← reuseBodies (← get).directory.branches.blocks download.headers
    let bodies ← (inventoryBatches reused.missing).foldlM (fetchBatch remote S download.headers)
      reused.bodies
    inDirectory (onBranches SideBranchStore.save)
    let candidate ← candidateChain kept download.headers bodies
    let work ← candidateWork candidate peer
    let activation ← inDirectory (activateBranch S (← chainBlocks) download.forkIndex candidate)
    return some
      { activation := activation
        candidateWork := work
        headersReceived := download.headers.length
        blocksReceived := reused.missing.length
        blocksReused := download.headers.length - reused.missing.length }

omit [InetText] in
/-- Whether the call asks for headers, where the work of the chain was `beforeWork`. -/
def asksPeer (beforeWork : Str) (blocks : List StoredBlock) (peer : PeerVersion) :
    Except Exn Bool := do
  let tip ← tipOf blocks
  if peer.tipHash = (← tip.hashHex) then
    throwIf (peer.bestHeight ≠ tip.height ∨ peer.chainwork ≠ beforeWork)
      (runtimeError "Peer announced inconsistent height or chainwork for matching tip")
    return false
  return beforeWork ≤ peer.chainwork

/-- The chain, for a peer with the given version. -/
def syncChain (before : UInt64) (beforeWork : Str) (peer : PeerVersion) (rounds : ℕ) :
    PeerSyncM σ π (Option ChainSync) := do
  let blocks ← chainBlocks
  let work ← calculateChainwork blocks
  if ← asksPeer beforeWork blocks peer then syncCandidate remote S peer rounds
  else
    return some
      { activation := ⟨false, before, before, before, 0, 0, work, work, []⟩
        candidateWork := beforeWork
        headersReceived := 0
        blocksReceived := 0
        blocksReused := 0 }

/-- The mempool, after the chain: what was disconnected, and what the peer has. -/
def syncMempool (disconnected : List Transaction) : PeerSyncM σ π Unit := do
  inDirectory (onNode Node.revalidate)
  inDirectory (onNode (Node.addEach disconnected))
  sendToPeer remote (str "getmempool") []
  let response ← receiveUntil remote S [str "txs"]
  let transactions ← deserializeTransactions response.payload
  inDirectory (onNode (Node.addEach transactions))
  sendToPeer remote (str "bye") []

/-- `sync_from_peer` once its objects have been loaded and the peer has been reached. -/
def syncFromPeer (endpoint : PeerEndpoint) (rounds : ℕ) :
    PeerSyncM σ π (Option (PeerVersion × ChainSync)) := do
  let blocks ← chainBlocks
  let before := (← tipOf blocks).height
  let beforeWork ← chainworkHex blocks
  let peer ← clientHandshake remote
  onPeers (PeerStore.markSuccess (← draw).1 endpoint peer.services)
  sendToPeer remote (str "getaddr") []
  mergeAddresses (← receiveUntil remote S [str "addrv2"]).payload
  match ← syncChain remote S before beforeWork peer rounds with
  | none => return none
  | some result =>
    syncMempool remote S result.activation.disconnectedTransactions
    return some (peer, result)

end

end BinaryCoin
