/-
  BinaryCoin — net.cpp: the class `TestnetP2pServer`.

  The server answers one message after another from its data directory, which
  it loads again for every request.  A request that it cannot answer ends the
  connection; what it has sent until then has been sent.
-/
import BinaryCoin.Addrv2
import BinaryCoin.CandidateProgress
import BinaryCoin.HeaderExchange

namespace BinaryCoin

open Cursor Stateful

/-- A command in a text of an exception. -/
def commandText (command : Str) : String :=
  String.ofList (command.map fun character => Char.ofNat character.toNat)

def expectCommand (message : Message) (expected : Str) : Except Exn Unit :=
  throwIf (message.command ≠ expected) (runtimeError ("Expected P2P command " ++
    commandText expected ++ ", received " ++ commandText message.command))

/-- What the loads of the server find. -/
structure Served where
  blocks : List StoredBlock
  utxos : UtxoSet
  branches : List StoredBlock
  mempool : TestnetMempool
  peers : List PeerRecord

/-- The data directory, and what has been sent since the last message came. -/
structure Serving where
  files : Served
  sent : List Message

abbrev ServerM := EStateM Exn Serving

section
variable [Crypto]

/-- The transaction with an identifier, if it is in the mempool or in the chain. -/
def findTransaction (txid : Str) : List Transaction → Except Exn (Option Transaction)
  | [] => return none
  | transaction :: rest => do
    if (← transaction.txid) = txid then return some transaction
    findTransaction txid rest

/-- A block of the chain or of the side branches. -/
def findServed (files : Served) (hash : Str) : Except Exn (Option StoredBlock) := do
  match ← findBlock hash files.blocks with
  | some block => return some block
  | none => findBlock hash files.branches

/-- `send_message` -/
def reply (command : Str) (payload : Bytes) : ServerM Unit := do
  let _ ← encodeP2pFrame command payload
  modify fun s => { s with sent := s.sent ++ [⟨command, payload⟩] }

/-- An item of `getdata`: what has not been found, with it or without. -/
def serveItem (notFound : List InventoryItem) (item : InventoryItem) :
    ServerM (List InventoryItem) := do
  let files := (← get).files
  match item.type with
  | .block =>
    match ← findServed files item.hash with
    | none => return notFound ++ [item]
    | some block =>
      reply (str "block") (← serializeStoredBlocks [block] 0 1)
      return notFound
  | .transaction =>
    match ← findTransaction item.hash (files.mempool.transactions ++
      files.blocks.flatMap fun stored => stored.block.transactions) with
    | none => return notFound ++ [item]
    | some transaction =>
      reply (str "tx") (← transaction.serialize)
      return notFound

def serveGetdata (payload : Bytes) : ServerM Unit := do
  let inventory ← deserializeInventory payload
  let notFound ← inventory.foldlM serveItem []
  if notFound ≠ [] then reply (str "notfound") (← serializeInventory notFound)

/-- The payload of `getblocks`. -/
def readGetblocks (payload : Bytes) : Except Exn (UInt64 × UInt32) := Reader.parse (do
  let startHeight ← readU64Le
  let requested ← readU32Le
  requireEnd "Malformed getblocks payload"
  return (startHeight, requested)) payload

def serveGetblocks (payload : Bytes) : ServerM Unit := do
  let (startHeight, requested) ← readGetblocks payload
  throwIf (requested = 0 ∨ requested.toNat > maxBlocksPerResponse)
    (runtimeError "Invalid getblocks count")
  let blocks := (← get).files.blocks
  let beginIndex :=
    if startHeight > (← tipOf blocks).height then blocks.length else startHeight.toNat
  reply (str "blocks") (← serializeStoredBlocks blocks beginIndex requested.toNat)

/-- A transaction for the mempool. -/
def serveTx (payload : Bytes) : ServerM Unit := do
  let transaction ← Transaction.deserialize payload
  let files := (← get).files
  let spendHeight := (← tipOf files.blocks).height + 1
  match (TestnetMempool.add transaction files.utxos spendHeight).run files.mempool with
  | .ok _ mempool => modify fun s => { s with files := { s.files with mempool := mempool } }
  | .error e _ => throw e
  reply (str "txack") (← transaction.rawHash).bytes

variable [InetText]

/-- `handle_client` on a message after the handshake: whether the connection goes on. -/
def serveRequest (request : Message) : ServerM Bool := do
  if request.command = str "getheaders" then
    reply (str "headers") (← answerGetheaders (← get).files.blocks request.payload)
    return true
  else if request.command = str "getaddr" then
    throwIf (request.payload ≠ []) (runtimeError "getaddr payload must be empty")
    reply (str "addrv2") (serializeAddrv2 (← get).files.peers)
    return true
  else if request.command = str "getdata" then
    serveGetdata request.payload
    return true
  else if request.command = str "getblocks" then
    serveGetblocks request.payload
    return true
  else if request.command = str "getmempool" then
    throwIf (request.payload ≠ []) (runtimeError "getmempool payload must be empty")
    reply (str "txs") (← serializeTransactions (← get).files.mempool.transactions)
    return true
  else if request.command = str "tx" then
    serveTx request.payload
    return true
  else if request.command = str "ping" then
    reply (str "pong") request.payload
    return true
  else if request.command = str "bye" then return false
  else throw (runtimeError ("Unsupported P2P command: " ++ commandText request.command))

/-! ## A connection -/

/-- What `handle_client` waits for. -/
inductive ServerStage where
  | version | verack | request | closed
  deriving DecidableEq

structure ServerSession where
  files : Served
  stage : ServerStage

/-- `server_handshake` up to its second message, and from there. -/
def serveVersion (now : Int64) (nonce : UInt64) (message : Message) : ServerM Unit := do
  expectCommand message (str "version")
  let _ ← deserializeVersion message.payload
  reply (str "version") (← serializeVersion (← localVersion now nonce (← get).files.blocks))

omit [InetText] in
/-- The second message of the handshake. -/
def serveVerack (message : Message) : ServerM Unit := do
  expectCommand message (str "verack")
  throwIf (message.payload ≠ []) (runtimeError "verack payload must be empty")
  reply (str "verack") []

/-- The next stage. -/
def serveMessage (now : Int64) (nonce : UInt64) (stage : ServerStage) (message : Message) :
    ServerM ServerStage := do
  match stage with
  | .version =>
    serveVersion now nonce message
    return .verack
  | .verack =>
    serveVerack message
    return .request
  | .request => return if ← serveRequest message then .request else .closed
  | .closed => return .closed

/-- A message at the server: the server after it, and what it has sent. -/
def ServerSession.receive (now : Int64) (nonce : UInt64) (p : ServerSession) (message : Message) :
    ServerSession × List Message :=
  match (serveMessage now nonce p.stage message).run ⟨p.files, []⟩ with
  | .ok stage s => (⟨s.files, stage⟩, s.sent)
  | .error _ s => (⟨s.files, .closed⟩, s.sent)

/-! ## Answers -/

variable {s : Serving} {files : Served} {p : ServerSession} {now : Int64} {nonce : UInt64}
  {m : Message} {payload request : Bytes}

omit [InetText] in
theorem reply_run {command : Str} (hcommand : CommandOk command)
    (hlength : payload.length ≤ maxP2pPayload) :
    (reply command payload).run s = .ok () { s with sent := s.sent ++ [⟨command, payload⟩] } := by
  rw [reply, encodeP2pFrame_sent hcommand hlength]
  rfl

/-- A request that is answered. -/
theorem receive_request {sent : List Message} (hstage : p.stage = .request)
    (h : (serveRequest m).run ⟨p.files, []⟩ = .ok true ⟨files, sent⟩) :
    p.receive now nonce m = (⟨files, .request⟩, sent) := by
  have hmessage : (serveMessage now nonce p.stage m).run ⟨p.files, []⟩ =
      .ok .request ⟨files, sent⟩ := by
    rw [hstage, serveMessage, run_bind_of_ok h]
    rfl
  rw [ServerSession.receive, hmessage]

theorem serve_getheaders (h : answerGetheaders files.blocks request = .ok payload)
    (hlength : payload.length ≤ maxP2pPayload) :
    (serveRequest ⟨str "getheaders", request⟩).run ⟨files, []⟩ =
      .ok true ⟨files, [⟨str "headers", payload⟩]⟩ := by
  have hanswer : (liftM (answerGetheaders files.blocks request) : ServerM Bytes).run ⟨files, []⟩ =
      .ok payload ⟨files, []⟩ := lift_run_ok.2 ⟨h, rfl⟩
  rw [serveRequest, if_pos rfl, EStateM.run_bind, EStateM.run_get]
  dsimp only
  rw [run_bind_of_ok hanswer,
    run_bind_of_ok (reply_run (validateCommand_ok.1 rfl) hlength)]
  rfl

theorem serve_getaddr (hlength : (serializeAddrv2 files.peers).length ≤ maxP2pPayload) :
    (serveRequest ⟨str "getaddr", []⟩).run ⟨files, []⟩ =
      .ok true ⟨files, [⟨str "addrv2", serializeAddrv2 files.peers⟩]⟩ := by
  rw [serveRequest, if_neg (by decide), if_pos rfl]
  have hempty : (throwIf (([] : Bytes) ≠ []) (runtimeError "getaddr payload must be empty") :
      ServerM Unit).run ⟨files, []⟩ = .ok () ⟨files, []⟩ := rfl
  rw [run_bind_of_ok hempty, EStateM.run_bind, EStateM.run_get]
  dsimp only
  rw [run_bind_of_ok (reply_run (validateCommand_ok.1 rfl) hlength)]
  rfl

theorem serveRequest_getmempool : (serveRequest ⟨str "getmempool", []⟩).run s = (do
    reply (str "txs") (← serializeTransactions s.files.mempool.transactions)
    return true : ServerM Bool).run s := by
  rw [serveRequest, if_neg (by decide), if_neg (by decide), if_neg (by decide),
    if_neg (by decide), if_pos rfl]
  have hempty : (throwIf (([] : Bytes) ≠ []) (runtimeError "getmempool payload must be empty") :
      ServerM Unit).run s = .ok () s := rfl
  rw [run_bind_of_ok hempty, EStateM.run_bind, EStateM.run_get]

theorem serve_getmempool (h : serializeTransactions files.mempool.transactions = .ok payload)
    (hlength : payload.length ≤ maxP2pPayload) :
    (serveRequest ⟨str "getmempool", []⟩).run ⟨files, []⟩ =
      .ok true ⟨files, [⟨str "txs", payload⟩]⟩ := by
  have hpayload : (liftM (serializeTransactions files.mempool.transactions) : ServerM Bytes).run
      ⟨files, []⟩ = .ok payload ⟨files, []⟩ := lift_run_ok.2 ⟨h, rfl⟩
  rw [serveRequest_getmempool, run_bind_of_ok hpayload,
    run_bind_of_ok (reply_run (validateCommand_ok.1 rfl) hlength)]
  rfl

/-! ### Blocks -/

/-- The item that asks for a block, and the message that brings it. -/
def StoredBlock.item (stored : StoredBlock) : InventoryItem := ⟨.block, stored.id⟩

omit [InetText] in
def StoredBlock.message (stored : StoredBlock) : Message := ⟨str "block", encodeBlocks [stored]⟩

/-- A block that fits into a message and into a line of the side branches. -/
structure StoredBlock.Fits (stored : StoredBlock) : Prop where
  readable : SideBranchStore.Readable stored
  size : (encodeBlocks [stored]).length ≤ maxP2pPayload

omit [Crypto] [InetText] in
theorem StoredBlock.Fits.serialize {b : StoredBlock} (h : b.Fits) :
    serializeStoredBlocks [b] 0 1 = .ok (encodeBlocks [b]) := by
  refine serializeStoredBlocks_ok.2 ⟨Nat.zero_le _, ?_, h.size, rfl⟩
  intro stored hstored
  obtain rfl := List.mem_singleton.1 hstored
  exact h.readable.1.serializable

omit [Crypto] [InetText] in
theorem StoredBlock.Fits.deserialize {b : StoredBlock} (h : b.Fits) :
    deserializeStoredBlocks (encodeBlocks [b]) = .ok [b] := by
  have hsize := h.size
  refine deserializeStoredBlocks_ok.2 ⟨⟨?_, fun stored hstored => ?_⟩, rfl⟩
  · rw [List.length_singleton]
    decide
  obtain rfl := List.mem_singleton.1 hstored
  refine ⟨?_, h.readable⟩
  simp only [encodeBlocks, List.flatMap_singleton, sized, List.length_append] at hsize
  omega

omit [InetText] in
/-- Blocks of the server's chain are found. -/
theorem findServed_run {b : StoredBlock} (hcanonical : ∀ b ∈ files.blocks, b.Canonical)
    (hsep : Separate files.blocks) (hb : b ∈ files.blocks) :
    findServed files b.id = .ok (some b) := by
  have hfind : files.blocks.find? (fun b' => b'.id = b.id) = some b := by
    obtain ⟨found, hfound⟩ := SideBranchStore.find?_ids.1
      (List.mem_map.2 ⟨b, hb, rfl⟩ : b.id ∈ SideBranchStore.ids files.blocks)
    have hid : found.id = b.id := by simpa using List.find?_some hfound
    rw [hfound, hsep found (List.mem_of_find?_eq_some hfound) b hb hid]
  rw [findServed, findBlock_ok hcanonical, hfind]
  rfl

omit [InetText] in
theorem serveItems_run {blocks : List StoredBlock} (hcanonical : ∀ b ∈ files.blocks, b.Canonical)
    (hsep : Separate files.blocks) (hfits : ∀ b ∈ blocks, b.Fits ∧ b ∈ files.blocks)
    (sent : List Message) :
    ((blocks.map StoredBlock.item).foldlM serveItem []).run ⟨files, sent⟩ =
      .ok [] ⟨files, sent ++ blocks.map StoredBlock.message⟩ := by
  induction blocks generalizing sent with
  | nil => rw [List.map_nil, List.map_nil, List.append_nil]; rfl
  | cons b blocks ih =>
    obtain ⟨⟨hb, hmem⟩, hrest⟩ := List.forall_mem_cons.1 hfits
    have hitem : (serveItem [] b.item).run ⟨files, sent⟩ =
        .ok [] ⟨files, sent ++ [b.message]⟩ := by
      have hserved : (liftM (findServed files b.id) : ServerM (Option StoredBlock)).run
          ⟨files, sent⟩ = .ok (some b) ⟨files, sent⟩ :=
        lift_run_ok.2 ⟨findServed_run hcanonical hsep hmem, rfl⟩
      have hbytes : (liftM (serializeStoredBlocks [b] 0 1) : ServerM Bytes).run ⟨files, sent⟩ =
          .ok (encodeBlocks [b]) ⟨files, sent⟩ := lift_run_ok.2 ⟨hb.serialize, rfl⟩
      have hreply : (reply (str "block") (encodeBlocks [b])).run ⟨files, sent⟩ =
          .ok () ⟨files, sent ++ [b.message]⟩ := reply_run (validateCommand_ok.1 rfl) hb.size
      rw [serveItem, EStateM.run_bind, EStateM.run_get]
      dsimp only [StoredBlock.item]
      rw [run_bind_of_ok hserved]
      dsimp only
      rw [run_bind_of_ok hbytes, run_bind_of_ok hreply]
      rfl
    rw [List.map_cons, List.foldlM_cons, run_bind_of_ok hitem, ih hrest, List.map_cons,
      List.append_assoc]
    rfl

theorem serve_getdata {blocks : List StoredBlock} (hcanonical : ∀ b ∈ files.blocks, b.Canonical)
    (hsep : Separate files.blocks) (hfits : ∀ b ∈ blocks, b.Fits ∧ b ∈ files.blocks)
    (hread : deserializeInventory request = .ok (blocks.map StoredBlock.item)) :
    (serveRequest ⟨str "getdata", request⟩).run ⟨files, []⟩ =
      .ok true ⟨files, blocks.map StoredBlock.message⟩ := by
  have hdata : (serveGetdata request).run ⟨files, []⟩ =
      .ok () ⟨files, blocks.map StoredBlock.message⟩ := by
    simp only [serveGetdata, run_bind_ok, lift_run_ok]
    exact ⟨_, _, ⟨hread, rfl⟩, [], _, serveItems_run hcanonical hsep hfits [], rfl⟩
  rw [serveRequest, if_neg (show str "getdata" ≠ str "getheaders" by decide),
    if_neg (show str "getdata" ≠ str "getaddr" by decide), if_pos rfl, run_bind_of_ok hdata]
  rfl

end

end BinaryCoin
