/-
  BinaryCoin — net.cpp: the candidate chain of a session.

  `session_loop` downloads the chain that its peer announces, headers first.
  What it has of that chain is its `candidate`; the handlers of `status`,
  `headers` and `block` change it piece by piece, and an exception leaves it as
  it is at the throw.

  The data directory is shared: before every section of a handler the other
  sessions may have done anything to it.
-/
import BinaryCoin.BranchSessions
import BinaryCoin.ChainWork
import BinaryCoin.HeaderSync
import BinaryCoin.Reorganization
import BinaryCoin.SessionLoop

namespace BinaryCoin

open Cursor Std Runs Stateful Text

/-! ## The data directory -/

/-- The objects of a section, with their files. -/
structure DataDirectory (σ : Type) where
  node : Node σ
  branches : SideBranchStore

abbrev SectionM (σ : Type) := EStateM Exn (DataDirectory σ)

section
variable {σ α : Type}

def onNode (x : NodeM σ α) : SectionM σ α := fun d =>
  match x d.node with
  | .ok a node => .ok a { d with node := node }
  | .error e node => .error e { d with node := node }

def onBranches (x : SideBranchM α) : SectionM σ α := fun d =>
  match x d.branches with
  | .ok a branches => .ok a { d with branches := branches }
  | .error e branches => .error e { d with branches := branches }

end

section
variable [Crypto] {σ : Type}

/-- `TestnetChain chain(data_directory_); chain.load();` -/
def openChain (S : ChainStore σ) : SectionM σ (List StoredBlock) := do
  onNode (onChain (do
    modify fun s => TestnetChain.new s.dataDirectory s.storage
    TestnetChain.load S))
  return (← get).node.chain.blocks

/-- `SideBranchStore branches(data_directory_); branches.load();` -/
def openBranches : SectionM σ (List StoredBlock) := do
  onBranches SideBranchStore.load
  return (← get).branches.blocks

/-- `TestnetMempool mempool(data_directory_); mempool.load();` -/
def openMempool : SectionM σ Unit := onNode (onMempool TestnetMempool.load)

/-- `activate_candidate` while it holds `data_mutex_`: the blocks of the chain before, and what
    `activate_if_more_work` returns. -/
def activateFull (S : ChainStore σ) (forkHeight : UInt64) (full : List StoredBlock) :
    SectionM σ (List StoredBlock × ChainActivationResult) := do
  let blocks ← openChain S
  let _ ← openBranches
  if (forkHeight + 1).toNat < blocks.length then
    onBranches (SideBranchStore.putMany (blocks.drop (forkHeight + 1).toNat))
  let activation ← onNode (onChain (TestnetChain.activateIfMoreWork S full))
  if activation.activated then
    onBranches (SideBranchStore.removeActive (← get).node.chain.blocks)
  openMempool
  onNode Node.revalidate
  onNode (Node.addEach activation.disconnectedTransactions)
  return (blocks, activation)

/-- The handler of a block that is not asked for by the candidate, up to its own `catch`: whether the
    block has been put into the store. -/
def receiveBlock (S : ChainStore σ) (stored : StoredBlock) (hash : Str) : SectionM σ Bool := do
  let blocks ← openChain S
  match ← findBlock hash blocks with
  | some _ => return false
  | none =>
    let tip ← tipOf blocks
    if stored.height = tip.height + 1 ∧ stored.block.header.previousHash = (← tip.hashHex) then
      onNode (onChain (TestnetChain.appendBlocks S [stored]))
      let _ ← openBranches
      onBranches (SideBranchStore.removeActive (← get).node.chain.blocks)
      openMempool
      onNode Node.revalidate
      return false
    else
      let _ ← openBranches
      onBranches (SideBranchStore.putMany [stored])
      return true

end

/-! ## The candidate -/

/-- `CandidateSync`; `chainPrefix` is `prefix`. -/
structure CandidateSync where
  active : Bool
  expectedHeight : UInt64
  expectedTip : Str
  expectedChainwork : Str
  forkHeight : UInt64
  chainPrefix : List StoredBlock
  headers : List HeaderRecord
  blocks : ExtTreeMap Str StoredBlock
  pending : ExtTreeSet Str

/-- `CandidateSync{}` -/
def CandidateSync.empty : CandidateSync := ⟨false, 0, [], [], 0, [], [], ∅, ∅⟩

section
variable [Crypto]

/-- The body of a header in `activate_candidate`. -/
def CandidateSync.body (c : CandidateSync) (record : HeaderRecord) : Except Exn StoredBlock := do
  let failure := runtimeError "Candidate block body does not match announced header"
  let stored ← orThrow c.blocks[(← record.header.hashHex)]?
    (runtimeError "Candidate block body is missing after headers-first download")
  throwIf (stored.height ≠ record.height) failure
  throwIf ((← stored.block.header.serialize) ≠ (← record.header.serialize)) failure
  return stored

/-- `full` in `activate_candidate`, with its checks. -/
def CandidateSync.assemble (c : CandidateSync) : Except Exn (List StoredBlock) := do
  let failure := runtimeError "Headers-first candidate tip does not match announcement"
  let full := c.chainPrefix ++ (← c.headers.mapM c.body)
  let last ← orThrow full.getLast? failure
  throwIf (last.height ≠ c.expectedHeight) failure
  throwIf ((← last.hashHex) ≠ c.expectedTip) failure
  checkExpectedWork full c.expectedChainwork
  return full

end

/-! ## The session -/

/-- How `send_all` ends. -/
inductive Sent where
  | done
  | failed (text : String)
  | closed

def Sent.result : Sent → Except Exn Unit
  | .done => .ok ()
  | .failed text => .error (runtimeError ("send failed: " ++ text))
  | .closed => .error (runtimeError "Peer closed connection during send")

/-- A call of `activate_candidate` that has activated the candidate. -/
structure ActivationRecord (σ : Type) where
  forkHeight : UInt64
  full : List StoredBlock
  /-- the chain before -/
  previous : List StoredBlock
  found : DataDirectory σ
  left : DataDirectory σ

/-- The data directory and the variables of the session that candidates depend on. -/
structure SyncState (σ : Type) where
  directory : DataDirectory σ
  candidate : CandidateSync
  /-- messages `getheaders` that have not been answered -/
  unansweredGetheaders : ℕ
  /-- blocks asked for with `getdata`, and since then answered neither by `block` nor by
      `notfound` -/
  requestedBlocks : List Str
  activations : List (ActivationRecord σ)

abbrev SyncM (σ : Type) := EStateM Exn (SyncState σ)

/-- What comes from outside while a handler runs. -/
structure Outside (σ : Type) where
  /-- what the other sessions do before each section -/
  others : ℕ → DataDirectory σ → DataDirectory σ
  sent : ℕ → Sent
  /-- `node_has_transaction` in the handler of `inv` -/
  hasTransaction : Str → Bool
  /-- the handlers that have nothing to do with candidates -/
  other : Except Exn ℕ

section
variable {σ α : Type}

/-- The section number `n` of a handler. -/
def inSection (outside : Outside σ) (n : ℕ) (x : SectionM σ α) : SyncM σ α := fun s =>
  match x.run (outside.others n s.directory) with
  | .ok a d => .ok a { s with directory := d }
  | .error e d => .error e { s with directory := d }

def setCandidate (c : CandidateSync) : SyncM σ Unit := modify fun s => { s with candidate := c }

/-- The blocks have been answered. -/
def fulfil (hashes : List Str) : SyncM σ Unit :=
  modify fun s => { s with requestedBlocks := s.requestedBlocks.filter (· ∉ hashes) }

variable [Crypto]

def sendMessage (sent : Sent) (command : Str) (payload : Bytes) : Except Exn Unit := do
  let _ ← encodeP2pFrame command payload
  sent.result

def requestHeaders (outside : Outside σ) (locator : List Str) : SyncM σ Unit := do
  let payload ← serializeGetheaders ⟨locator, zeroHashHex⟩
  sendMessage (outside.sent 0) (str "getheaders") payload
  modify fun s => { s with unansweredGetheaders := s.unansweredGetheaders + 1 }

/-- The message `getdata` number `n` of a handler. -/
def requestData (outside : Outside σ) (n : ℕ) (items : List InventoryItem) : SyncM σ Unit := do
  let payload ← serializeInventory items
  sendMessage (outside.sent n) (str "getdata") payload
  modify fun s => { s with requestedBlocks := s.requestedBlocks ++
    (items.filter fun item => item.type = .block).map InventoryItem.hash }

variable (S : ChainStore σ) (outside : Outside σ)

def startCandidateSync (height : UInt64) (tip work : Str) : SyncM σ Unit := do
  throwIf (height > 1000000) (runtimeError "Peer chain height exceeds safety limit")
  let blocks ← inSection outside 1 (openChain S)
  setCandidate {
    active := true
    expectedHeight := height
    expectedTip := tip
    expectedChainwork := work
    forkHeight := (← tipOf blocks).height
    chainPrefix := blocks
    headers := []
    blocks := ∅
    pending := ∅ }
  requestHeaders outside (← makeBlockLocator blocks)

/-- What follows `should_sync`, for a `status` message and for the peer of an outbound
    connection. -/
def syncWith (peer : PeerVersion) : SyncM σ Unit := do
  let blocks ← inSection outside 0 (openChain S)
  if ← shouldSync (← get).candidate.active blocks peer then
    startCandidateSync S outside peer.bestHeight peer.tipHash peer.chainwork

/-- `n` is the number of its section in the handler. -/
def activateCandidate (n : ℕ) : SyncM σ Unit := do
  let c := (← get).candidate
  if c.active then
    let full ← c.assemble
    let found := outside.others n (← get).directory
    let (previous, activation) ← inSection outside n (activateFull S c.forkHeight full)
    if activation.activated then
      modify fun s => { s with activations :=
        ⟨c.forkHeight, full, previous, found, s.directory⟩ :: s.activations }
    setCandidate .empty

/-- The body of the loop over the headers in `request_candidate_blocks`. -/
def collectBody (active branches : List StoredBlock) (record : HeaderRecord) : SyncM σ Unit := do
  let hash ← record.header.hashHex
  let c := (← get).candidate
  match ← findBlock hash active with
  | some stored => setCandidate { c with blocks := c.blocks.insertIfNew hash stored }
  | none =>
    match ← findBlock hash branches with
    | some stored => setCandidate { c with blocks := c.blocks.insertIfNew hash stored }
    | none => setCandidate { c with pending := c.pending.insert hash }

/-- The loop over `pending`, with the messages sent and the items of the next one. -/
def requestPending : ℕ → List InventoryItem → List Str → SyncM σ Unit
  | n, batch, [] => do
    if batch ≠ [] then requestData outside n batch
  | n, batch, hash :: rest => do
    let batch := batch ++ [⟨.block, hash⟩]
    if batch.length = maxInventoryItems then
      requestData outside n batch
      requestPending (n + 1) [] rest
    else requestPending n batch rest

def requestCandidateBlocks : SyncM σ Unit := do
  let branches ← inSection outside 0 openBranches
  let active ← inSection outside 1 (openChain S)
  forM (← get).candidate.headers (collectBody active branches)
  if (← get).candidate.pending.isEmpty then activateCandidate S outside 2
  else requestPending outside 0 [] (← get).candidate.pending.toList

/-! ### The handlers -/

/-- Where the first header of a message connects. -/
def connectHeaders (front : HeaderRecord) : SyncM σ Unit := do
  let c := (← get).candidate
  match c.headers.getLast? with
  | none =>
    let failure := runtimeError "Headers do not connect to a locator block"
    match ← searchBelow c.chainPrefix front.header.previousHash c.chainPrefix.length with
    | none => throw failure
    | some forkIndex =>
      let fork ← orThrow c.chainPrefix[forkIndex]? (outOfRange "vector")
      throwIf (front.height ≠ fork.height + 1) failure
      setCandidate { c with
        forkHeight := fork.height
        chainPrefix := c.chainPrefix.take (forkIndex + 1) }
  | some previous =>
    let failure := runtimeError "Headers response is not contiguous"
    throwIf (front.height ≠ previous.height + 1) failure
    throwIf (front.header.previousHash ≠ (← previous.header.hashHex)) failure

/-- The body of the loop over the headers of a message. -/
def pushHeader (record : HeaderRecord) : SyncM σ Unit := do
  let c := (← get).candidate
  match c.headers.getLast? with
  | some previous =>
    let failure := runtimeError "Invalid headers-first chain linkage"
    throwIf (record.height ≠ previous.height + 1) failure
    throwIf (record.header.previousHash ≠ (← previous.header.hashHex)) failure
    throwIf (record.header.time ≤ previous.header.time) failure
  | none =>
    let last ← orThrow c.chainPrefix.getLast? (outOfRange "vector")
    throwIf (record.header.time ≤ last.block.header.time)
      (runtimeError "First candidate header timestamp is not increasing")
  setCandidate { c with headers := c.headers ++ [record] }

/-- What follows the loop. -/
def afterHeaders : SyncM σ Unit := do
  let c := (← get).candidate
  let last ← orThrow c.headers.getLast? (outOfRange "vector")
  throwIf (last.height > c.expectedHeight)
    (runtimeError "Peer sent headers beyond advertised height")
  let hash ← last.header.hashHex
  if hash = c.expectedTip then
    throwIf (last.height ≠ c.expectedHeight)
      (runtimeError "Advertised tip height does not match headers")
    requestCandidateBlocks S outside
  else requestHeaders outside [hash, testnetGenesisHash]

/-- Handlers return what they add to the score. -/
def handleHeaders (payload : Bytes) : SyncM σ ℕ := do
  modify fun s => { s with unansweredGetheaders := s.unansweredGetheaders - 1 }
  if ¬ (← get).candidate.active then return 10
  let headers ← deserializeHeaders payload
  let front ← orThrow headers.head? (runtimeError "Peer ended headers before advertised tip")
  connectHeaders front
  forM headers pushHeader
  afterHeaders S outside
  return 0

def handleStatus (payload : Bytes) : SyncM σ ℕ := do
  syncWith S outside (← deserializeVersion payload)
  return 0

/-- The items of a message `inv` that the node does not have. -/
def missingItems (inventory : List InventoryItem) : SectionM σ (List InventoryItem) := do
  let blocks ← openChain S
  openMempool
  let branches ← openBranches
  inventory.filterM fun item => do
    match item.type with
    | .block => return (← findBlock item.hash blocks).isNone && (← findBlock item.hash branches).isNone
    | .transaction => return !outside.hasTransaction item.hash

def handleInv (payload : Bytes) : SyncM σ ℕ := do
  let inventory ← deserializeInventory payload
  let missing ← inSection outside 0 (missingItems S outside inventory)
  if missing ≠ [] then requestData outside 0 missing
  return 0

/-- The header of the candidate with a hash. -/
def findHeader (hash : Str) : List HeaderRecord → Except Exn (Option HeaderRecord)
  | [] => return none
  | record :: rest => do
    if (← record.header.hashHex) = hash then return some record
    findHeader hash rest

/-- A block that the candidate waits for. -/
def receivePending (stored : StoredBlock) (hash : Str) : SyncM σ Unit := do
  let failure := runtimeError "Received candidate block does not match requested header"
  let record ← orThrow (← findHeader hash (← get).candidate.headers) failure
  throwIf (record.height ≠ stored.height) failure
  throwIf ((← record.header.serialize) ≠ (← stored.block.header.serialize)) failure
  inSection outside 0 (do
    let _ ← openBranches
    onBranches (SideBranchStore.putMany [stored]))
  let c := (← get).candidate
  setCandidate { c with
    blocks := c.blocks.insertIfNew hash stored
    pending := c.pending.erase hash }
  if (← get).candidate.pending.isEmpty then activateCandidate S outside 1

def handleBlock (payload : Bytes) : SyncM σ ℕ := do
  match ← deserializeStoredBlocks payload with
  | [stored] =>
    let hash ← stored.hashHex
    fulfil [hash]
    let c := (← get).candidate
    if c.active ∧ hash ∈ c.pending then
      receivePending S outside stored hash
      return 0
    else
      let sideBranch ← tryCatch (some <$> inSection outside 0 (receiveBlock S stored hash))
        fun _ => return none
      match sideBranch with
      | none => return 50
      | some sideBranch =>
        if sideBranch ∧ ¬ c.active then sendMessage (outside.sent 0) (str "getstatus") []
        return 0
  | _ => throw (runtimeError "block message must contain one block")

/-- The source does not read the payload. -/
def handleNotfound (payload : Bytes) : SyncM σ ℕ := do
  match deserializeInventory payload with
  | .ok items => fulfil ((items.filter fun item => item.type = .block).map InventoryItem.hash)
  | .error _ => pure ()
  return 0

def handle (message : Message) : SyncM σ ℕ :=
  if message.command = str "headers" then handleHeaders S outside message.payload
  else if message.command = str "status" then handleStatus S outside message.payload
  else if message.command = str "inv" then handleInv S outside message.payload
  else if message.command = str "block" then handleBlock S outside message.payload
  else if message.command = str "notfound" then handleNotfound message.payload
  else outside.other

end

/-! ## Sessions -/

/-- The loop of a session, and what its handlers share. -/
structure SyncSession (σ : Type) where
  loop : SessionLoop
  sync : SyncState σ

/-- What the loop sees of a handler. -/
def handledAs {σ : Type} : EStateM.Result Exn (SyncState σ) ℕ → Handled
  | .ok penalty _ => .done penalty
  | .error e _ => .thrown e

section
variable [Crypto] {σ : Type}

/-- One iteration; nothing is left when the session ends in it. -/
def SyncSession.step (S : ChainStore σ) (policy : NetworkPolicy) (s : SyncSession σ)
    (arrival : Arrival) (outside : Outside σ) : Option (SyncSession σ) :=
  match arrival.received with
  | none => (iteration policy s.loop arrival).map fun loop => { s with loop := loop }
  | some message =>
    let result := (handle S outside message).run s.sync
    (iteration policy s.loop { arrival with handled := handledAs result }).map fun loop =>
      ⟨loop, Stateful.final result⟩

/-- Before the first iteration: nothing has been asked for, except that an outbound connection may
    have started with the chain of its peer. -/
inductive SyncSession.Starts (S : ChainStore σ) (now : Time) : SyncSession σ → Prop
  | inbound (d : DataDirectory σ) : Starts S now ⟨.initial now, ⟨d, .empty, 0, [], []⟩⟩
  | outbound (d : DataDirectory σ) (outside : Outside σ) (peer : PeerVersion) (sync : SyncState σ)
      (h : (syncWith S outside peer).run ⟨d, .empty, 0, [], []⟩ = .ok () sync) :
      Starts S now ⟨.initial now, sync⟩

/-- The candidate is not abandoned: it waits for headers, or for a block that has been asked for. -/
def SyncState.CanProgress (s : SyncState σ) : Prop :=
  s.candidate.active → 0 < s.unansweredGetheaders ∨
    ∃ hash ∈ s.candidate.pending, hash ∈ s.requestedBlocks

end

end BinaryCoin
