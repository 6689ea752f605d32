/-
  BinaryCoin — nodes that sync with one another.

  Every node has a data directory of its own, serves it, and calls
  `sync_from_peer` with other nodes, in any order.  Whatever the order is, no
  node ends with less work than it had or loses a block, and the nodes that
  have heard of the chain with the most work agree on it.
-/
import BinaryCoin.SyncCall

namespace BinaryCoin

open Stateful SideBranchStore

/-! ## One call -/

section
variable [Crypto] [InetText] {σ : Type} {S : ChainStore σ} {network : List StoredBlock}
  {server d d' : DataDirectory σ}

/-- What a server finds in a data directory. -/
def DataDirectory.served (d : DataDirectory σ) (peers : List PeerRecord) : Served where
  blocks := d.node.chain.blocks
  utxos := d.node.chain.utxos
  branches := d.branches.blocks
  mempool := d.node.mempool
  peers := peers

/-- The objects as a call leaves them. -/
def afterSync {π α : Type} : EStateM.Result Exn (PeerSync σ π) α → PeerSync σ π
  | .ok _ s => s
  | .error _ s => s

/-- What every node keeps. -/
structure NetworkNode (network : List StoredBlock) (d : DataDirectory σ) : Prop where
  holds : Holds network d
  node : d.node.Ok
  height : d.node.chain.blocks.length ≤ 1000001

omit [InetText] in
/-- A block under a header hash is in the chain or in the store of side branches. -/
def DataDirectory.Has (d : DataDirectory σ) (hash : Str) : Prop :=
  hash ∈ ids d.node.chain.blocks ∨ hash ∈ ids d.branches.blocks

omit [InetText] in
/-- The chain after a call is the longer one. -/
theorem Synced.chain {B : List StoredBlock} {uB : UtxoSet}
    (h : Synced network d.node.chain.blocks B uB d d') :
    d.node.chain.blocks.length < B.length ∧ d'.node.chain.blocks = B ∨
      B.length ≤ d.node.chain.blocks.length ∧ d'.node.chain.blocks = d.node.chain.blocks := by
  by_cases hlt : d.node.chain.blocks.length < B.length
  · exact .inl ⟨hlt, (h.adopted.longer hlt).1⟩
  · exact .inr ⟨by omega, by rw [h.adopted.kept (by omega)]⟩

omit [InetText] in
theorem Synced.networkNode {B : List StoredBlock} {uB : UtxoSet}
    (h : Synced network d.node.chain.blocks B uB d d') (hd : NetworkNode network d)
    (hB : B.length ≤ 1000001) : NetworkNode network d' := by
  refine ⟨h.holds, h.node, ?_⟩
  rcases h.chain with ⟨-, hchain⟩ | ⟨-, hchain⟩
  · rw [hchain]
    exact hB
  · rw [hchain]
    exact hd.height

omit [InetText] in
/-- No block is lost. -/
theorem Synced.has {B : List StoredBlock} {uB : UtxoSet}
    (h : Synced network d.node.chain.blocks B uB d d') {hash : Str} (hhash : d.Has hash) :
    d'.Has hash := by
  rcases hhash with hhash | hhash
  · obtain ⟨a, ha, rfl⟩ := List.mem_map.1 hhash
    rcases h.chain with ⟨hlt, hchain⟩ | ⟨-, hchain⟩
    · by_cases hB : a ∈ B
      · refine .inl ?_
        rw [hchain]
        exact List.mem_map.2 ⟨a, hB, rfl⟩
      · exact .inr (h.adopted.disconnected hlt a ha hB)
    · refine .inl ?_
      rw [hchain]
      exact hhash
  · exact (h.adopted.remembered hash hhash).symm

/-- **A call with a server of the same code** returns if the mempool of the server fits into a
    message, however long the client's own chain is.  It leaves the chain with more work, a mempool that applies to it and every block that
    was there before, and a second call leaves the chain as it is. -/
theorem sync_with_server (hS : TestnetChain.Commits S) (hnetwork : Exchangeable network)
    {s : PeerSync σ ServerSession} {files : Served} {uB : UtxoSet}
    (hremote : s.remote = ⟨files, .version⟩) (hinbox : s.inbox = [])
    (hholds : Holds network s.directory) (hnode : s.directory.node.Ok) (hB : Chain files.blocks uB)
    (hBnet : files.blocks ⊆ network) (hheight : files.blocks.length ≤ 1000001)
    (htransactions : TransactionsOk files.mempool.transactions) {payload : Bytes}
    (hpayload : serializeTransactions files.mempool.transactions = .ok payload)
    (hlength : payload.length ≤ maxP2pPayload) {rounds : ℕ}
    (hrounds : files.blocks.length ≤ maxHeadersPerResponse * rounds) (t : Int64) (n : UInt64)
    (endpoint : PeerEndpoint) : ∃ result s',
      (syncFromPeer (ServerSession.receive t n) S endpoint rounds).run s = .ok (some result) s' ∧
      Adopted s.directory.node.chain.blocks files.blocks uB s.directory s'.directory ∧
      Holds network s'.directory ∧ s'.directory.node.Ok ∧
      (∀ hash, s.directory.Has hash → s'.directory.Has hash) ∧
      ∀ (again : PeerSync σ ServerSession) (t' : Int64) (n' : UInt64) (endpoint' : PeerEndpoint),
        again.directory = s'.directory → again.remote = ⟨files, .version⟩ → again.inbox = [] →
        (afterSync ((syncFromPeer (ServerSession.receive t' n') S endpoint' rounds).run
          again)).directory.node.chain = s'.directory.node.chain := by
  obtain ⟨s', hsynced, -, hreturns⟩ := syncFromPeer_run (t := t) (n := n) hS hnetwork hremote hinbox
    hholds hnode hB hBnet hheight rounds hrounds endpoint
  obtain ⟨result, hrun⟩ := hreturns ⟨payload, htransactions, hpayload, hlength⟩
  refine ⟨result, s', hrun, hsynced.adopted, hsynced.holds, hsynced.node, fun _ => hsynced.has, ?_⟩
  intro again t' n' endpoint' hdirectory hremote' hinbox'
  obtain ⟨hholds', hnode'⟩ : Holds network again.directory ∧ again.directory.node.Ok := by
    rw [hdirectory]
    exact ⟨hsynced.holds, hsynced.node⟩
  obtain ⟨s'', hsynced', hends, -⟩ := syncFromPeer_run (t := t') (n := n') hS hnetwork hremote'
    hinbox' hholds' hnode' hB hBnet hheight rounds hrounds endpoint'
  have hafter : (afterSync ((syncFromPeer (ServerSession.receive t' n') S endpoint' rounds).run
      again)).directory = s''.directory := by
    rcases hends with ⟨result', hrun'⟩ | ⟨e, hrun'⟩
    · rw [hrun']
      rfl
    · rw [hrun']
      rfl
  have hle : files.blocks.length ≤ again.directory.node.chain.blocks.length := by
    rw [hdirectory]
    rcases hsynced.chain with ⟨-, hchain⟩ | ⟨hle, hchain⟩
    · rw [hchain]
    · rw [hchain]
      exact hle
  rw [hafter, hsynced'.adopted.kept hle, hdirectory]

end

/-! ### Two nodes -/

section
attribute [local instance] repeatedCrypto twoAddresses

/-- A node that has nothing but a chain. -/
def chainOnly (blocks : List StoredBlock) (utxos : UtxoSet) :
    DataDirectory (Option (List StoredBlock × UtxoSet)) where
  node := ⟨{ TestnetChain.new "data" (some (blocks, utxos)) with blocks := blocks, utxos := utxos },
    ⟨[], none⟩⟩
  branches := ⟨[], none⟩

theorem exchangeable_repeated : Exchangeable [genesisStored, repeatedCoinbase] := by
  obtain ⟨u, hchain⟩ := verifyBlocks_iff.1 repeated_accepted
  have hids : genesisStored.id ≠ repeatedCoinbase.id := by decide +kernel
  have hlimits : ∀ b ∈ [genesisStored, repeatedCoinbase],
      b.block.transactions.length ≤ maxStoredTransactions ∧
      (∀ t ∈ b.block.transactions, t.encode.length ≤ maxTransactionSize) ∧
      (encodeBlocks [b]).length ≤ maxP2pPayload := by
    decide +kernel
  refine ⟨fun b hb => ?_, fun a ha b hb hid => ?_⟩
  · obtain ⟨hcount, hsize, hpayload⟩ := hlimits b hb
    exact ⟨⟨hchain.stored_canonical b hb, hcount, hsize⟩, hpayload⟩
  · simp only [List.mem_cons, List.not_mem_nil, or_false] at ha hb
    rcases ha with rfl | rfl
    · rcases hb with rfl | rfl
      · rfl
      · exact absurd hid hids
    · rcases hb with rfl | rfl
      · exact absurd hid.symm hids
      · rfl

theorem networkNode_chainOnly {blocks : List StoredBlock} {u : UtxoSet} (h : Chain blocks u)
    (hblocks : blocks ⊆ [genesisStored, repeatedCoinbase]) (hlength : blocks.length ≤ 2) :
    NetworkNode [genesisStored, repeatedCoinbase] (chainOnly blocks u) := by
  have hvalid : (chainOnly blocks u).node.chain.Valid := h
  exact ⟨⟨hvalid, rfl, hblocks, List.nil_subset _⟩,
    ⟨hvalid, _, Node.spendHeight_eq hvalid, Node.mempoolOk_nil⟩, hlength.trans (by decide)⟩

theorem sync_with_server_two : ∃ (u u' : UtxoSet) (result : PeerVersion × ChainSync)
    (s' : PeerSync (Option (List StoredBlock × UtxoSet)) ServerSession),
    (syncFromPeer (ServerSession.receive 0 7) ChainStore.memory ⟨str "127.0.0.1", 18444⟩ 1).run
      ⟨chainOnly [genesisStored] u, ⟨[], none⟩,
        ⟨(chainOnly [genesisStored, repeatedCoinbase] u').served [], .version⟩, [],
        fun _ => (0, 5)⟩ = .ok (some result) s' ∧
      s'.directory.node.chain.blocks = [genesisStored, repeatedCoinbase] := by
  obtain ⟨u', hchain⟩ := verifyBlocks_iff.1 repeated_accepted
  have happend : Chain ([genesisStored] ++ [repeatedCoinbase]) u' := hchain
  obtain ⟨u, hgenesis⟩ := happend.of_append (List.cons_ne_nil _ _)
  have hd := networkNode_chainOnly hgenesis (by simp) (by simp)
  have hheight : ((chainOnly [genesisStored, repeatedCoinbase] u').served []).blocks.length ≤
      1000001 := show 2 ≤ 1000001 by decide
  have hrounds : ((chainOnly [genesisStored, repeatedCoinbase] u').served []).blocks.length ≤
      maxHeadersPerResponse * 1 := show 2 ≤ 2000 by decide
  have hmempool : TransactionsOk ((chainOnly [genesisStored, repeatedCoinbase] u').served
      []).mempool.transactions := ⟨Nat.zero_le _, List.forall_mem_nil _⟩
  obtain ⟨result, s', hrun, hadopted, -⟩ := sync_with_server TestnetChain.memory_commits
    exchangeable_repeated
    (s := ⟨chainOnly [genesisStored] u, ⟨[], none⟩,
        ⟨(chainOnly [genesisStored, repeatedCoinbase] u').served [], .version⟩, [],
        fun _ => (0, 5)⟩) rfl rfl hd.holds hd.node hchain (List.Subset.refl _) hheight hmempool rfl
    (show 1 ≤ maxP2pPayload by decide) hrounds 0 7 ⟨str "127.0.0.1", 18444⟩
  exact ⟨u, u', result, s', hrun, (hadopted.longer (show 1 < 2 by decide)).1⟩

end

/-! ## A step of a network -/

section
variable [Crypto] [InetText] {σ : Type} {S : ChainStore σ} {network : List StoredBlock}
  {server d d' : DataDirectory σ}

/-- A call with the server of a data directory takes another one from `d` to `d'`, whether it returns
    or throws. -/
def SyncsTo (S : ChainStore σ) (server d d' : DataDirectory σ) : Prop :=
  ∃ (s : PeerSync σ ServerSession) (peers : List PeerRecord) (t : Int64) (n : UInt64)
      (endpoint : PeerEndpoint) (rounds : ℕ),
    s.directory = d ∧ s.remote = ⟨server.served peers, .version⟩ ∧ s.inbox = [] ∧
    server.node.chain.blocks.length ≤ maxHeadersPerResponse * rounds ∧
    (afterSync ((syncFromPeer (ServerSession.receive t n) S endpoint rounds).run s)).directory = d'

theorem SyncsTo.synced (hS : TestnetChain.Commits S) (hnetwork : Exchangeable network)
    (hserver : NetworkNode network server) (hd : NetworkNode network d) (h : SyncsTo S server d d') :
    Synced network d.node.chain.blocks server.node.chain.blocks server.node.chain.utxos d d' := by
  obtain ⟨s, peers, t, n, endpoint, rounds, rfl, hremote, hinbox, hrounds, rfl⟩ := h
  obtain ⟨s', hsynced, hends, -⟩ := syncFromPeer_run (t := t) (n := n) hS hnetwork hremote hinbox
    hd.holds hd.node hserver.holds.valid hserver.holds.chain hserver.height rounds hrounds endpoint
  rcases hends with ⟨result, hrun⟩ | ⟨e, hrun⟩
  · rw [hrun]
    exact hsynced
  · rw [hrun]
    exact hsynced

/-- **A step**: the node is one of the network again, has the longer chain and has lost nothing. -/
theorem SyncsTo.step (hS : TestnetChain.Commits S) (hnetwork : Exchangeable network)
    (hserver : NetworkNode network server) (hd : NetworkNode network d) (h : SyncsTo S server d d') :
    NetworkNode network d' ∧ d.node.chain.blocks.length ≤ d'.node.chain.blocks.length ∧
      server.node.chain.blocks.length ≤ d'.node.chain.blocks.length ∧
      (d'.node.chain.blocks = server.node.chain.blocks ∨ d'.node.chain.blocks = d.node.chain.blocks) ∧
      ∀ hash, d.Has hash → d'.Has hash := by
  have hsynced := h.synced hS hnetwork hserver hd
  have hnode := hsynced.networkNode hd hserver.height
  rcases hsynced.chain with ⟨hlt, hchain⟩ | ⟨hle, hchain⟩
  · refine ⟨hnode, ?_, ?_, .inl hchain, fun _ => hsynced.has⟩
    · rw [hchain]
      exact hlt.le
    · rw [hchain]
  · refine ⟨hnode, ?_, ?_, .inr hchain, fun _ => hsynced.has⟩
    · rw [hchain]
    · rw [hchain]
      exact hle

/-! ## Any number of calls, in any order -/

variable {ι : Type} [DecidableEq ι] {N N' : ι → DataDirectory σ} {steps : List (ι × ι)}

/-- One call after another: `(i, j)` is a call of node `i` with node `j`. -/
inductive SyncRun (S : ChainStore σ) :
    (ι → DataDirectory σ) → List (ι × ι) → (ι → DataDirectory σ) → Prop
  | nil {N : ι → DataDirectory σ} : SyncRun S N [] N
  | cons {N N' : ι → DataDirectory σ} {i j : ι} {d : DataDirectory σ} {steps : List (ι × ι)}
      (step : SyncsTo S (N j) (N i) d) (rest : SyncRun S (Function.update N i d) steps N') :
      SyncRun S N ((i, j) :: steps) N'

/-- The nodes that have heard, from one node or another, of what those of `known` had. -/
def heard : Finset ι → List (ι × ι) → Finset ι
  | known, [] => known
  | known, (i, j) :: steps => heard (if j ∈ known then insert i known else known) steps

/-- What a run keeps. -/
theorem SyncRun.sound (hS : TestnetChain.Commits S) (hnetwork : Exchangeable network)
    (h : SyncRun S N steps N') (hN : ∀ i, NetworkNode network (N i)) (i : ι) :
    NetworkNode network (N' i) ∧ (N i).node.chain.blocks.length ≤ (N' i).node.chain.blocks.length ∧
      (∃ j, (N' i).node.chain.blocks = (N j).node.chain.blocks) ∧
      ∀ hash, (N i).Has hash → (N' i).Has hash := by
  induction h with
  | nil => exact ⟨hN i, Nat.le_refl _, ⟨i, rfl⟩, fun _ h => h⟩
  | @cons N N' k j d steps step rest ih =>
    obtain ⟨hd, hle, -, hchain, hhas⟩ := step.step hS hnetwork (hN j) (hN k)
    -- after the first call
    have hfirst : ∀ m, NetworkNode network (Function.update N k d m) ∧
        (N m).node.chain.blocks.length ≤ (Function.update N k d m).node.chain.blocks.length ∧
        (∃ j, (Function.update N k d m).node.chain.blocks = (N j).node.chain.blocks) ∧
        ∀ hash, (N m).Has hash → (Function.update N k d m).Has hash := by
      intro m
      by_cases hm : m = k
      · subst hm
        rw [Function.update_self]
        exact ⟨hd, hle, hchain.elim (fun h => ⟨j, h⟩) fun h => ⟨m, h⟩, hhas⟩
      · rw [Function.update_of_ne hm]
        exact ⟨hN m, Nat.le_refl _, ⟨m, rfl⟩, fun _ h => h⟩
    obtain ⟨hsound, hlength, ⟨m, hm⟩, hkept⟩ := ih fun m => (hfirst m).1
    obtain ⟨-, hlength₁, -, hhas₁⟩ := hfirst i
    obtain ⟨-, -, ⟨m', hm'⟩, -⟩ := hfirst m
    exact ⟨hsound, hlength₁.trans hlength, ⟨m', hm.trans hm'⟩,
      fun hash h => hkept hash (hhas₁ hash h)⟩

/-- The length of a chain spreads. -/
theorem SyncRun.length_le (hS : TestnetChain.Commits S) (hnetwork : Exchangeable network)
    (h : SyncRun S N steps N') (hN : ∀ i, NetworkNode network (N i)) {known : Finset ι} {length : ℕ}
    (hknown : ∀ i ∈ known, length ≤ (N i).node.chain.blocks.length) :
    ∀ i ∈ heard known steps, length ≤ (N' i).node.chain.blocks.length := by
  induction h generalizing known with
  | nil => exact hknown
  | @cons N N' k j d steps step rest ih =>
    obtain ⟨hd, hle, hserver, -, -⟩ := step.step hS hnetwork (hN j) (hN k)
    refine ih (fun m => ?_) fun m hm => ?_
    · by_cases hk : m = k
      · subst hk
        rw [Function.update_self]
        exact hd
      · rw [Function.update_of_ne hk]
        exact hN m
    · by_cases hk : m = k
      · subst hk
        rw [Function.update_self]
        by_cases hj : j ∈ known
        · exact (hknown j hj).trans hserver
        · rw [if_neg hj] at hm
          exact (hknown m hm).trans hle
      · rw [Function.update_of_ne hk]
        refine hknown m ?_
        by_cases hj : j ∈ known
        · rw [if_pos hj] at hm
          exact Finset.mem_of_mem_insert_of_ne hm hk
        · rwa [if_neg hj] at hm

/-- **Nodes that sync with one another agree.**  After any calls in any order every node has an
    accepted chain, which is one of those at the start and not shorter than its own was, a mempool
    that applies to it, and every block that it had; and the nodes that have heard of a longest chain
    have one of its length, and that chain if it was the only one of its length. -/
theorem nodes_agree (hS : TestnetChain.Commits S) (hnetwork : Exchangeable network)
    (hN : ∀ i, NetworkNode network (N i)) (h : SyncRun S N steps N') :
    (∀ i, NetworkNode network (N' i) ∧
      (N i).node.chain.blocks.length ≤ (N' i).node.chain.blocks.length ∧
      (∃ j, (N' i).node.chain.blocks = (N j).node.chain.blocks) ∧
      ∀ hash, (N i).Has hash → (N' i).Has hash) ∧
    ∀ best, (∀ i, (N i).node.chain.blocks.length ≤ (N best).node.chain.blocks.length) →
      ∀ i ∈ heard {best} steps,
        (N' i).node.chain.blocks.length = (N best).node.chain.blocks.length ∧
        ((∀ j, (N j).node.chain.blocks.length = (N best).node.chain.blocks.length →
            (N j).node.chain.blocks = (N best).node.chain.blocks) →
          (N' i).node.chain.blocks = (N best).node.chain.blocks) := by
  have hsound := h.sound hS hnetwork hN
  refine ⟨hsound, fun best hbest i hi => ?_⟩
  have hknown : ∀ m ∈ ({best} : Finset ι),
      (N best).node.chain.blocks.length ≤ (N m).node.chain.blocks.length := by
    intro m hm
    rw [Finset.mem_singleton.1 hm]
  have hge := h.length_le hS hnetwork hN hknown i hi
  obtain ⟨-, -, ⟨j, hj⟩, -⟩ := hsound i
  have hlength : (N' i).node.chain.blocks.length = (N best).node.chain.blocks.length := by
    refine Nat.le_antisymm ?_ hge
    rw [hj]
    exact hbest j
  refine ⟨hlength, fun honly => ?_⟩
  rw [hj] at hlength ⊢
  exact honly j hlength

end

section
attribute [local instance] repeatedCrypto twoAddresses

/-- A node with the genesis block, and one with another block above it. -/
def twoNodes (u u' : UtxoSet) : Bool → DataDirectory (Option (List StoredBlock × UtxoSet))
  | false => chainOnly [genesisStored] u
  | true => chainOnly [genesisStored, repeatedCoinbase] u'

theorem nodes_agree_two : ∃ (u u' : UtxoSet)
    (N' : Bool → DataDirectory (Option (List StoredBlock × UtxoSet))),
    SyncRun ChainStore.memory (twoNodes u u') [(false, true)] N' ∧
    (N' false).node.chain.blocks = [genesisStored, repeatedCoinbase] := by
  obtain ⟨u', hchain⟩ := verifyBlocks_iff.1 repeated_accepted
  have happend : Chain ([genesisStored] ++ [repeatedCoinbase]) u' := hchain
  obtain ⟨u, hgenesis⟩ := happend.of_append (List.cons_ne_nil _ _)
  have hN : ∀ i, NetworkNode [genesisStored, repeatedCoinbase] (twoNodes u u' i) := by
    intro i
    cases i with
    | false => exact networkNode_chainOnly hgenesis (by simp) (by simp)
    | true => exact networkNode_chainOnly hchain (List.Subset.refl _) (by simp)
  have hlength : ∀ i, (twoNodes u u' i).node.chain.blocks.length ≤ 2 := by
    intro i
    cases i with
    | false => exact (show 1 ≤ 2 by decide)
    | true => exact Nat.le_refl 2
  obtain ⟨d, hstep⟩ : ∃ d, SyncsTo ChainStore.memory (twoNodes u u' true) (twoNodes u u' false) d :=
    ⟨_, ⟨twoNodes u u' false, ⟨[], none⟩, ⟨(twoNodes u u' true).served [], .version⟩, [],
      fun _ => (0, 5)⟩, [], 0, 7, ⟨str "127.0.0.1", 18444⟩, 1, rfl, rfl, rfl,
      (hlength true).trans (by decide), rfl⟩
  have hrun := SyncRun.cons hstep SyncRun.nil
  obtain ⟨-, hagree⟩ := nodes_agree TestnetChain.memory_commits exchangeable_repeated hN hrun
  obtain ⟨-, honly⟩ := hagree true hlength false (by decide)
  refine ⟨u, u', _, hrun, honly fun j hj => ?_⟩
  cases j with
  | false => exact absurd hj (show ¬ 1 = 2 by decide)
  | true => rfl

end

end BinaryCoin
