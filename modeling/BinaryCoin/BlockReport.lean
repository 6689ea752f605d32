/-
  BinaryCoin — rpc_commands.cpp and main.cpp: what is told of the chain.

  `dispatch` is modelled for the methods that load the chain, on the blocks
  that it has loaded.  The conversions between whole numbers and `double` are
  parameters.
-/
import BinaryCoin.ChainWork
import BinaryCoin.Payment
import BinaryCoin.Rpc
import BinaryCoin.SideBranch

namespace BinaryCoin

open Text

/-! ## The parameters of a method -/

section
variable {D : Type}

def requireParams (params : List (Json D)) (minimum maximum : ℕ) : Except RpcExn Unit :=
  if params.length < minimum ∨ params.length > maximum then
    .error (.rpcError (-1) (str "Incorrect number of parameters"))
  else .ok ()

def stringParam (value : Json D) (name : String) : Except RpcExn Str :=
  match value with
  | .string value => .ok value
  | _ => .error (.rpcError (-3) (str (name ++ " must be a string")))

def integerParam (truncate : D → Int64) (value : Json D) (name : String) : Except RpcExn Int64 :=
  match value with
  | .integer value => .ok value
  | .number value => .ok (truncate value)
  | _ => .error (.rpcError (-3) (str (name ++ " must be a number")))

/-! ## The results -/

variable [Crypto] (toDouble : UInt64 → D)

/-- The constructor for `std::uint64_t`. -/
def jsonUInt64 (value : UInt64) : Json D :=
  if value > 0x7fffffffffffffff then .number (toDouble value) else .integer value.toInt64

/-- An object from members with different keys. -/
def jsonObject (members : List (String × Json D)) : Json D :=
  .object (objectOf (members.map fun member => (str member.1, member.2)))

omit [Crypto] in
/-- The exceptions of the other parts of the program. -/
def liftRpc {α : Type} (x : Except Exn α) : Except RpcExn α := x.mapError .exception

def blockByHash (blocks : List StoredBlock) (hash : Str) : Except RpcExn StoredBlock := do
  match ← liftRpc (findBlock hash blocks) with
  | some stored => return stored
  | none => throw (.rpcError (-5) (str "Block not found"))

/-- The members of `block_json`, with the hash of the block and of its transactions. -/
def blockMembers (stored : StoredBlock) (confirmations : UInt64) (chainwork hash : Str)
    (txids : List Str) : List (String × Json D) :=
  let header := stored.block.header
  [("hash", .string hash),
    ("confirmations", jsonUInt64 toDouble confirmations),
    ("height", jsonUInt64 toDouble stored.height),
    ("version", .integer header.version.toInt64),
    ("merkleroot", .string header.merkleRoot),
    ("time", jsonUInt64 toDouble header.time.toUInt64),
    ("nonce", jsonUInt64 toDouble header.nonce.toUInt64),
    ("bits", .string (hexText header.bits.toNat)),
    ("chainwork", .string chainwork),
    ("nTx", jsonUInt64 toDouble (UInt64.ofNat stored.block.transactions.length)),
    ("tx", .array (txids.map .string))] ++
  if stored.height > 0 then [("previousblockhash", .string header.previousHash)] else []

def blockJson (stored : StoredBlock) (confirmations : UInt64) (chainwork : Str) :
    Except Exn (Json D) := do
  let txids ← stored.block.transactions.mapM Transaction.txid
  let hash ← stored.hashHex
  return jsonObject (blockMembers toDouble stored confirmations chainwork hash txids)

/-- `getblock` -/
def getBlock (blocks : List StoredBlock) (params : List (Json D)) : Except RpcExn (Json D) := do
  requireParams params 1 2
  let hash ← stringParam (params.getD 0 .null) "Block hash"
  let stored ← blockByHash blocks hash
  let tip ← liftRpc (tipOf blocks)
  let confirmations := tip.height - stored.height + 1
  let chainwork ← liftRpc (chainworkHex blocks)
  liftRpc (blockJson toDouble stored confirmations chainwork)

/-- `getblockhash` -/
def getBlockHash (truncate : D → Int64) (blocks : List StoredBlock) (params : List (Json D)) :
    Except RpcExn (Json D) := do
  requireParams params 1 1
  let height ← integerParam truncate (params.getD 0 .null) "Height"
  let tip ← liftRpc (tipOf blocks)
  if height < 0 ∨ height.toUInt64 > tip.height then
    throw (.rpcError (-8) (str "Block height out of range"))
  let stored ← liftRpc (orThrow blocks[height.toUInt64.toNat]? (outOfRange "vector"))
  return .string (← liftRpc stored.hashHex)

/-- `getmininginfo` -/
def getMiningInfo (blocks : List StoredBlock) (params : List (Json D)) : Except RpcExn (Json D) := do
  requireParams params 0 0
  let tip ← liftRpc (tipOf blocks)
  return jsonObject [
    ("blocks", jsonUInt64 toDouble tip.height),
    ("currentblockweight", .integer 0),
    ("currentblocktx", .integer 0),
    ("difficulty", .number (toDouble 1)),
    ("networkhashps", .number (toDouble 0)),
    ("pooledtx", .integer 0),
    ("chain", .string (str "test")),
    ("warnings", .string (str "BinaryCoin Testnet Alpha software"))]

/-- `getblockchaininfo`, with the size of the block file. -/
def getBlockchainInfo (blockFileBytes : UInt64) (blocks : List StoredBlock)
    (params : List (Json D)) : Except RpcExn (Json D) := do
  requireParams params 0 0
  let tip ← liftRpc (tipOf blocks)
  let hash ← liftRpc tip.hashHex
  let chainwork ← liftRpc (chainworkHex blocks)
  return jsonObject [
    ("chain", .string (str "test")),
    ("blocks", jsonUInt64 toDouble tip.height),
    ("headers", jsonUInt64 toDouble tip.height),
    ("bestblockhash", .string hash),
    ("difficulty", .number (toDouble 1)),
    ("mediantime", jsonUInt64 toDouble tip.block.header.time.toUInt64),
    ("verificationprogress", .number (toDouble 1)),
    ("initialblockdownload", .bool false),
    ("chainwork", .string chainwork),
    ("size_on_disk", jsonUInt64 toDouble blockFileBytes),
    ("pruned", .bool false),
    ("warnings", .string (str "BinaryCoin Testnet Alpha software"))]

/-- The branches of `dispatch` for the methods that load the chain; the last one is that of
    `getblockchaininfo`. -/
def dispatchChain (truncate : D → Int64) (blockFileBytes : UInt64) (blocks : List StoredBlock)
    (method : Str) (params : List (Json D)) : Except RpcExn (Json D) :=
  if method = str "getblockcount" then do
    requireParams params 0 0
    return jsonUInt64 toDouble (← liftRpc (tipOf blocks)).height
  else if method = str "getbestblockhash" then do
    requireParams params 0 0
    let tip ← liftRpc (tipOf blocks)
    return .string (← liftRpc tip.hashHex)
  else if method = str "getblockhash" then getBlockHash truncate blocks params
  else if method = str "getblock" then getBlock toDouble blocks params
  else if method = str "getmininginfo" then getMiningInfo toDouble blocks params
  else getBlockchainInfo toDouble blockFileBytes blocks params

omit [Crypto] in
/-- The handlers of `operator()`. -/
def RpcExn.reported : RpcExn → RpcExn
  | .rpcError code message => .rpcError code message
  | .exception e =>
    if e.kind = .invalidArgument then .rpcError (-8) (str e.what)
    else .rpcError (-32603) (str e.what)

/-- `RpcCommandHandler::operator()`, for these methods. -/
def chainCommand (truncate : D → Int64) (blockFileBytes : UInt64) (blocks : List StoredBlock)
    (request : RpcRequest D) : Except RpcExn (Json D) :=
  (dispatchChain toDouble truncate blockFileBytes blocks request.method request.params).mapError
    RpcExn.reported

end

/-! ## The command print-chain -/

section
variable [Crypto]

def printTransaction (transaction : Transaction) : Except Exn Str := do
  let txid ← transaction.txid
  let size ← transaction.virtualSize
  return str "  txid=" ++ txid ++
    str " coinbase=" ++ str (if transaction.isCoinbase then "yes" else "no") ++
    str " vsize=" ++ decimal size ++ [10]

/-- What is printed for a block, with the work up to it. -/
def printBlock (stored : StoredBlock) (cumulativeWork : ℕ) : Except Exn Str := do
  let header := stored.block.header
  let hash ← stored.hashHex
  let chainwork ← uint256ToHex cumulativeWork
  let transactions ← stored.block.transactions.mapM printTransaction
  return str "height=" ++ decimal stored.height.toNat ++ str " hash=" ++ hash ++
    str " previous=" ++ header.previousHash ++ str " merkle=" ++ header.merkleRoot ++
    str " txs=" ++ decimal stored.block.transactions.length ++
    str " time=" ++ decimal header.time.toNat ++ str " nonce=" ++ decimal header.nonce.toNat ++
    str " chainwork=" ++ chainwork ++ [10] ++ transactions.flatten

/-- One round of the loop, on the work and on what has been printed. -/
def printStep (printed : ℕ × List Str) (stored : StoredBlock) : Except Exn (ℕ × List Str) := do
  let cumulativeWork := printed.1 + (← blockProof stored.block.header.bits)
  let text ← printBlock stored cumulativeWork
  return (cumulativeWork, printed.2 ++ [text])

/-- What is printed, block by block. -/
def printChain (blocks : List StoredBlock) : Except Exn (List Str) := do
  return (← blocks.foldlM printStep (0, [])).2

/-! ## The work that is printed -/

variable {blocks : List StoredBlock} {u : UtxoSet} {stored : StoredBlock} {lines : List Str}
  {w i : ℕ}

/-- What is printed for each block is told with the work up to it. -/
structure Printed (blocks : List StoredBlock) (lines : List Str) : Prop where
  length : lines.length = blocks.length
  line : ∀ i stored, blocks[i]? = some stored → ∃ w text,
    calculateChainwork (blocks.take (i + 1)) = .ok w ∧ printBlock stored w = .ok text ∧
      lines[i]? = some text

theorem Printed.snoc (h : Printed blocks lines) {text : Str}
    (hw : calculateChainwork (blocks ++ [stored]) = .ok w) (htext : printBlock stored w = .ok text) :
    Printed (blocks ++ [stored]) (lines ++ [text]) := by
  refine ⟨by rw [List.length_append, List.length_append, h.length]; rfl, ?_⟩
  intro i b hb
  rcases Nat.lt_trichotomy i blocks.length with hlt | rfl | hgt
  · rw [List.getElem?_append_left hlt] at hb
    obtain ⟨w', text', hw', htext', hline⟩ := h.line i b hb
    refine ⟨w', text', ?_, htext', ?_⟩
    · rw [List.take_append_of_le_length hlt]
      exact hw'
    · rw [List.getElem?_append_left (h.length ▸ hlt)]
      exact hline
  · rw [List.getElem?_append_right le_rfl, Nat.sub_self, List.getElem?_cons_zero] at hb
    obtain rfl := Option.some.inj hb
    refine ⟨w, text, ?_, htext, ?_⟩
    · rw [List.take_of_length_le (by rw [List.length_append, List.length_singleton])]
      exact hw
    · rw [List.getElem?_append_right h.length.le, h.length, Nat.sub_self, List.getElem?_cons_zero]
  · rw [List.getElem?_eq_none (by rw [List.length_append, List.length_singleton]; omega)] at hb
    cases hb

/-- The loop adds up the work of the blocks that it has printed. -/
theorem printed_of_loop (h : blocks.foldlM printStep (0, []) = .ok (w, lines)) :
    calculateChainwork blocks = .ok w ∧ Printed blocks lines := by
  induction blocks using List.reverseRecOn generalizing w lines with
  | nil =>
    obtain ⟨rfl, rfl⟩ := Prod.mk.inj (except_pure_ok.1 h)
    exact ⟨rfl, rfl, fun i b hb => by rw [List.getElem?_nil] at hb; cases hb⟩
  | append_singleton blocks stored ih =>
    rw [List.foldlM_append] at h
    simp only [List.foldlM_cons, List.foldlM_nil, bind_pure, except_bind_ok] at h
    obtain ⟨⟨w', lines'⟩, hloop, hstep⟩ := h
    obtain ⟨hw, hprinted⟩ := ih hloop
    obtain ⟨p, hp, hstep⟩ := except_bind_ok.1 hstep
    obtain ⟨text, htext, hstep⟩ := except_bind_ok.1 hstep
    obtain ⟨rfl, rfl⟩ := Prod.mk.inj (except_pure_ok.1 hstep)
    have hw' := calculateChainwork_snoc hw hp
    exact ⟨hw', hprinted.snoc hw' htext⟩

/-- A block of a chain can be printed with every work of 256 bits. -/
theorem StoredBlock.Canonical.printBlock (h : stored.Canonical) (hw : w < 2 ^ 256) :
    ∃ text, printBlock stored w = .ok text := by
  obtain ⟨transactions, htransactions⟩ : ∃ texts,
      stored.block.transactions.mapM printTransaction = .ok texts := by
    refine mapM_of_forall fun t ht => ?_
    have hst := (h.transactions t ht).1
    have hsize : t.virtualSize = .ok t.encode.length := by
      rw [Transaction.virtualSize, Transaction.serialize_ok.2 ⟨hst, rfl⟩]
      rfl
    rw [printTransaction, Transaction.txid_ok.2 ⟨hst, rfl⟩, except_ok_bind, hsize, except_ok_bind]
    exact ⟨_, rfl⟩
  rw [BinaryCoin.printBlock, h.hashHex, except_ok_bind, uint256ToHex_of_lt hw, except_ok_bind,
    htransactions]
  exact ⟨_, rfl⟩

theorem printLoop_snoc {p : ℕ} {text : Str} (h : blocks.foldlM printStep (0, []) = .ok (w, lines))
    (hp : blockProof stored.block.header.bits = .ok p)
    (htext : printBlock stored (w + p) = .ok text) :
    (blocks ++ [stored]).foldlM printStep (0, []) = .ok (w + p, lines ++ [text]) := by
  have hstep : printStep (w, lines) stored = .ok (w + p, lines ++ [text]) :=
    except_bind_ok.2 ⟨p, hp, except_bind_ok.2 ⟨text, htext, rfl⟩⟩
  rw [List.foldlM_append, h, except_ok_bind, List.foldlM_cons, hstep]
  rfl

/-- Every chain can be printed. -/
theorem Chain.printLoop (h : Chain blocks u) : ∃ lines,
    blocks.foldlM printStep (0, []) = .ok (blocks.length * testnetBlockWork, lines) := by
  have hone : ∀ (blocks : List StoredBlock) (stored : StoredBlock) (u : UtxoSet) (lines : List Str),
      Chain (blocks ++ [stored]) u → stored.block.header.bits = testnetBits →
      blocks.foldlM printStep (0, []) = .ok (blocks.length * testnetBlockWork, lines) →
      ∃ lines', (blocks ++ [stored]).foldlM printStep (0, []) =
        .ok ((blocks ++ [stored]).length * testnetBlockWork, lines') := by
    intro blocks stored u lines hchain hbits hlines
    have hw := hchain.work_lt
    rw [List.length_append, List.length_singleton, Nat.succ_mul] at hw ⊢
    have hcanonical := hchain.stored_canonical stored
      (List.mem_append_right _ (List.mem_singleton_self stored))
    obtain ⟨text, htext⟩ := hcanonical.printBlock hw
    exact ⟨_, printLoop_snoc hlines (hbits ▸ blockProof_testnet) htext⟩
  induction h using Chain.rec_connects with
  | genesis g hg => exact hone [] g ∅ [] (.genesis hg) hg.isGenesis.bits rfl
  | block blocks previous stored u u' _ hchain hconn ih =>
    obtain ⟨lines, hlines⟩ := ih
    exact hone _ stored u' lines hchain hconn.bits hlines

theorem Chain.printChain (h : Chain blocks u) : ∃ lines,
    printChain blocks = .ok lines ∧ Printed blocks lines := by
  obtain ⟨lines, hlines⟩ := h.printLoop
  refine ⟨lines, ?_, (printed_of_loop hlines).2⟩
  rw [BinaryCoin.printChain, hlines]
  rfl

/-- The chain up to a block has the work of its blocks. -/
theorem Chain.work_take (h : Chain blocks u) (hi : i < blocks.length) :
    calculateChainwork (blocks.take (i + 1)) = .ok ((i + 1) * testnetBlockWork) := by
  rw [← List.take_append_drop (i + 1) blocks] at h
  have hlength : (blocks.take (i + 1)).length = i + 1 := by
    rw [List.length_take]
    omega
  obtain ⟨u', htake⟩ := h.of_append fun hnil => by rw [hnil] at hlength; cases hlength
  rw [htake.work, hlength]

/-! ## The work that is reported -/

omit [Crypto] in
/-- What a map with different keys holds. -/
theorem find?_objectOf {α : Type} {members : List (Str × α)} (h : (members.map Prod.fst).Nodup)
    {key : Str} {value : α} (hmem : (key, value) ∈ members) :
    ((objectOf members).find? (·.1 = key)).map Prod.snd = some value := by
  induction members using List.reverseRecOn with
  | nil => cases hmem
  | append_singleton members last ih =>
    rw [List.map_append, List.nodup_append] at h
    obtain ⟨hmembers, -, hlast⟩ := h
    rw [objectOf, List.foldl_append, List.foldl_cons, List.foldl_nil, find?_insertOrAssign]
    rcases List.mem_append.1 hmem with hmem | hmem
    · rw [if_neg (hlast key (List.mem_map_of_mem hmem) last.1 (by simp)).symm]
      exact ih hmembers hmem
    · obtain rfl := List.mem_singleton.1 hmem
      rw [if_pos rfl]

omit [Crypto] in
theorem rpc_ok_bind {α β : Type} {a : α} {f : α → Except RpcExn β} :
    ((.ok a : Except RpcExn α) >>= f) = f a := rfl

omit [Crypto] in
theorem liftRpc_ok {α : Type} {a : α} : liftRpc (.ok a) = .ok a := rfl

section
variable {D : Type} (toDouble : UInt64 → D) (truncate : D → Int64)

omit [Crypto] in
theorem member_jsonObject {members : List (String × Json D)}
    (h : (members.map fun member => str member.1).Nodup) {key : String} {value : Json D}
    (hmem : (key, value) ∈ members) : (jsonObject members).member key = some value := by
  refine find?_objectOf ?_ (List.mem_map_of_mem (f := fun member => (str member.1, member.2)) hmem)
  rw [List.map_map]
  exact h

omit [Crypto] in
theorem nodup_blockMembers (stored : StoredBlock) (confirmations : UInt64) (chainwork hash : Str)
    (txids : List Str) : ((blockMembers toDouble stored confirmations chainwork hash txids).map
      fun member => str member.1).Nodup := by
  have hkeys : (["hash", "confirmations", "height", "version", "merkleroot", "time", "nonce", "bits",
      "chainwork", "nTx", "tx", "previousblockhash"].map str).Nodup := by decide
  refine hkeys.sublist ?_
  rw [blockMembers, List.map_append]
  refine List.Sublist.append (.refl (["hash", "confirmations", "height", "version", "merkleroot",
    "time", "nonce", "bits", "chainwork", "nTx", "tx"].map str)) ?_
  change List.Sublist _ (["previousblockhash"].map str)
  split_ifs
  · exact .refl _
  · exact List.nil_sublist _

/-- The report of a block of a chain, whichever work it is told with. -/
theorem StoredBlock.Canonical.blockJson (h : stored.Canonical) (confirmations : UInt64)
    (chainwork : Str) : ∃ result, blockJson toDouble stored confirmations chainwork = .ok result ∧
      result.member "hash" = some (.string stored.id) ∧
      result.member "height" = some (jsonUInt64 toDouble stored.height) ∧
      result.member "chainwork" = some (.string chainwork) := by
  have htxids : stored.block.transactions.mapM Transaction.txid =
      .ok (stored.block.transactions.map Transaction.id) :=
    (mapM_ok fun _ _ => Transaction.txid_ok).2 ⟨fun t ht => (h.transactions t ht).1, rfl⟩
  rw [BinaryCoin.blockJson, htxids, except_ok_bind, h.hashHex_id, except_ok_bind]
  have hnodup := nodup_blockMembers toDouble stored confirmations chainwork stored.id
    (stored.block.transactions.map Transaction.id)
  exact ⟨_, rfl, member_jsonObject hnodup (by simp [blockMembers]),
    member_jsonObject hnodup (by simp [blockMembers]),
    member_jsonObject hnodup (by simp [blockMembers])⟩

/-- `getblock` finds every block of a chain by its hash, and tells the work of the whole chain. -/
theorem Chain.getBlock (h : Chain blocks u) (hi : blocks[i]? = some stored) {rest : List (Json D)}
    (hrest : rest.length ≤ 1) {work : Str} (hwork : chainworkHex blocks = .ok work) :
    ∃ result, getBlock toDouble blocks (.string stored.id :: rest) = .ok result ∧
      result.member "hash" = some (.string stored.id) ∧
      result.member "chainwork" = some (.string work) := by
  have hcanonical := h.stored_canonical
  have hfound : (blocks.find? fun b => b.id = stored.id).isSome := by
    rw [List.find?_isSome]
    exact ⟨stored, List.mem_of_getElem? hi, by simp⟩
  obtain ⟨found, hfound⟩ := Option.isSome_iff_exists.1 hfound
  have hid : found.id = stored.id := by simpa using List.find?_some hfound
  have hblock : blockByHash blocks stored.id = .ok found := by
    rw [blockByHash, findBlock_ok hcanonical, hfound]
    rfl
  obtain ⟨tip, htip⟩ := Option.isSome_iff_exists.1 (List.getLast?_isSome.2 h.ne_nil)
  have htipOf : tipOf blocks = .ok tip := orThrow_ok.2 htip
  have hparams : requireParams (.string stored.id :: rest) 1 2 = .ok () := by
    rw [requireParams, if_neg]
    rw [List.length_cons]
    omega
  obtain ⟨result, hresult, hhash, -, hchainwork⟩ :=
    (hcanonical found (List.mem_of_find?_eq_some hfound)).blockJson toDouble
      (tip.height - found.height + 1) work
  refine ⟨result, ?_, hid ▸ hhash, hchainwork⟩
  have hstring : stringParam ((.string stored.id :: rest : List (Json D)).getD 0 .null) "Block hash" =
      .ok stored.id := rfl
  rw [BinaryCoin.getBlock, hparams, rpc_ok_bind, hstring, rpc_ok_bind, hblock, rpc_ok_bind, htipOf,
    liftRpc_ok, rpc_ok_bind, hwork, liftRpc_ok, rpc_ok_bind, hresult]
  rfl

theorem Chain.chainCommand (h : Chain blocks u) (hi : blocks[i]? = some stored)
    (blockFileBytes : UInt64) (id : Json D) {rest : List (Json D)} (hrest : rest.length ≤ 1)
    {work : Str} (hwork : chainworkHex blocks = .ok work) : ∃ result,
      chainCommand toDouble truncate blockFileBytes blocks
        ⟨str "getblock", .string stored.id :: rest, id⟩ = .ok result ∧
      result.member "hash" = some (.string stored.id) ∧
      result.member "chainwork" = some (.string work) := by
  obtain ⟨result, hresult, hmembers⟩ := h.getBlock toDouble hi hrest hwork
  refine ⟨result, ?_, hmembers⟩
  have hcount : str "getblock" ≠ str "getblockcount" := by decide
  have hbest : str "getblock" ≠ str "getbestblockhash" := by decide
  have hhash : str "getblock" ≠ str "getblockhash" := by decide
  rw [BinaryCoin.chainCommand, dispatchChain, if_neg hcount, if_neg hbest, if_neg hhash,
    if_pos rfl, hresult]
  rfl

/-- **The work that `getblock` reports** is what `print-chain` prints for the block, the work up to
    it, for the last block and for no other. -/
theorem getblock_chainwork_iff (h : verifyBlocks blocks = .ok ()) (hi : blocks[i]? = some stored)
    (blockFileBytes : UInt64) (id : Json D) {rest : List (Json D)} (hrest : rest.length ≤ 1) :
    ∃ hash w work lines text result reported, stored.hashHex = .ok hash ∧
      calculateChainwork (blocks.take (i + 1)) = .ok w ∧ uint256ToHex w = .ok work ∧
      printChain blocks = .ok lines ∧ lines[i]? = some text ∧ printBlock stored w = .ok text ∧
      chainCommand toDouble truncate blockFileBytes blocks
        ⟨str "getblock", .string hash :: rest, id⟩ = .ok result ∧
      result.member "hash" = some (.string hash) ∧
      result.member "chainwork" = some (.string reported) ∧
      (reported = work ↔ i + 1 = blocks.length) := by
  obtain ⟨u, hchain⟩ := verifyBlocks_iff.1 h
  have hlt : i < blocks.length := (List.getElem?_eq_some_iff.1 hi).1
  have hwork := hchain.work_take hlt
  have hle : (i + 1) * testnetBlockWork ≤ blocks.length * testnetBlockWork :=
    Nat.mul_le_mul_right _ hlt
  have htotal := uint256ToHex_of_lt hchain.work_lt
  have htext := uint256ToHex_of_lt (Nat.lt_of_le_of_lt hle hchain.work_lt)
  obtain ⟨lines, hlines, hprinted⟩ := hchain.printChain
  obtain ⟨w, text, hw, hprint, hline⟩ := hprinted.line i stored hi
  obtain rfl := Except.ok.inj (hw.symm.trans hwork)
  obtain ⟨result, hresult, hhash, hreported⟩ := hchain.chainCommand toDouble truncate hi
    blockFileBytes id hrest ((chainworkHex_ok hchain.work).2 htotal)
  refine ⟨_, _, _, lines, text, result, _,
    (hchain.stored_canonical stored (List.mem_of_getElem? hi)).hashHex_id, hwork, htext, hlines,
    hline, hprint, hresult, hhash, hreported, ?_⟩
  rw [uint256_eq_iff htotal htext, eq_comm]
  exact Nat.mul_left_inj (by decide)

end

end

/-! ## The block below the tip -/

section
attribute [local instance] repeatedCrypto

/-- At the tip the two agree. -/
theorem getblock_chainwork_tip : ∃ hash w work lines text result reported,
    repeatedCoinbase.hashHex = .ok hash ∧
    calculateChainwork ([genesisStored, repeatedCoinbase].take 2) = .ok w ∧
    uint256ToHex w = .ok work ∧ printChain [genesisStored, repeatedCoinbase] = .ok lines ∧
    lines[1]? = some text ∧ printBlock repeatedCoinbase w = .ok text ∧
    chainCommand (fun _ => ()) (fun _ => 0) 0 [genesisStored, repeatedCoinbase]
      ⟨str "getblock", [.string hash], .null⟩ = .ok result ∧
    result.member "hash" = some (.string hash) ∧
    result.member "chainwork" = some (.string reported) ∧ (reported = work ↔ 1 + 1 = 2) :=
  getblock_chainwork_iff (fun _ => ()) (fun _ => 0) repeated_accepted rfl 0 .null (Nat.zero_le 1)

/-- For the genesis block below another one `getblock` reports the work of both. -/
theorem getblock_chainwork_genesis : ∃ hash w work result,
    verifyBlocks [genesisStored, repeatedCoinbase] = .ok () ∧ genesisStored.hashHex = .ok hash ∧
    calculateChainwork ([genesisStored, repeatedCoinbase].take 1) = .ok w ∧
    uint256ToHex w = .ok work ∧
    chainCommand (fun _ => ()) (fun _ => 0) 0 [genesisStored, repeatedCoinbase]
      ⟨str "getblock", [.string hash], .null⟩ = .ok result ∧
    result.member "hash" = some (.string hash) ∧
    result.member "chainwork" ≠ some (.string work) := by
  obtain ⟨u, hchain⟩ := verifyBlocks_iff.1 repeated_accepted
  have hgenesis : [genesisStored, repeatedCoinbase][0]? = some genesisStored := rfl
  have htotal := uint256ToHex_of_lt hchain.work_lt
  have htext := uint256ToHex_of_lt (show 65538 < 2 ^ 256 by norm_num)
  obtain ⟨result, hresult, hhash, hreported⟩ := hchain.chainCommand (fun _ => ()) (fun _ => 0)
    hgenesis 0 .null (show ([] : List (Json Unit)).length ≤ 1 from Nat.zero_le 1)
    ((chainworkHex_ok hchain.work).2 htotal)
  refine ⟨_, _, _, result, repeated_accepted,
    (hchain.stored_canonical genesisStored (List.mem_of_getElem? hgenesis)).hashHex_id,
    hchain.work_take (Nat.zero_lt_two), htext, hresult, hhash, ?_⟩
  rw [hreported]
  intro heq
  have hwork := (uint256_eq_iff htotal htext).1 (Json.string.inj (Option.some.inj heq))
  exact absurd hwork (by decide)

end

end BinaryCoin
