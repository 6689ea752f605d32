/-
  BinaryCoin — net.cpp: a whole call of `sync_from_peer` with a `TestnetP2pServer`.

  The handshake, the addresses, the chain and the mempool, in this order.  When
  the call ends, by returning or by throwing, the client has the chain with
  more work, and its mempool applies to it.
-/
import BinaryCoin.HonestSync

namespace BinaryCoin

open Cursor Std Stateful SideBranchStore

variable [Crypto] {σ : Type} {S : ChainStore σ} {t : Int64} {n : UInt64} {files : Served}
  {A B network : List StoredBlock} {uA uB : UtxoSet} {peer : PeerVersion} {i j : ℕ}

/-! ## The chain -/

/-- `sync_from_peer` decides as one that works out its work when it decides. -/
theorem syncsFrom_eq (blocks : List StoredBlock) (peer : PeerVersion) :
    syncsFrom blocks peer = (do asksPeer (← chainworkHex blocks) blocks peer) := rfl

/-- Chains with one tip are equal. -/
theorem Chain.eq_of_tip (hA : Chain A uA) (hB : Chain B uB) (hsep : Separate (A ++ B))
    {tip : StoredBlock} (htipA : A.getLast? = some tip) (htipB : B.getLast? = some tip) : A = B := by
  have hlengthA := List.length_pos_of_ne_nil hA.ne_nil
  have hlengthB := List.length_pos_of_ne_nil hB.ne_nil
  rw [List.getLast?_eq_getElem?] at htipA htipB
  have hheight := (hA.height _ tip htipA).symm.trans (hB.height _ tip htipB)
  have hlength : A.length = B.length := by omega
  obtain ⟨n, -, hnA, -, hsame, hdiffer⟩ := exists_parting hA hB hsep
  have hall : A.length ≤ n := by
    by_contra hlt
    rw [← hlength] at htipB
    exact hdiffer (A.length - 1) (by omega) tip tip htipA htipB rfl
  refine List.ext_getElem? fun k => ?_
  by_cases hk : k < A.length
  · exact hsame k (by omega)
  · rw [List.getElem?_eq_none (by omega), List.getElem?_eq_none (by omega)]

/-- **The peer is asked** if its chain is another one with at least as much work. -/
theorem asksPeer_run (hA : Chain A uA) (hB : Chain B uB) (hsep : Separate (A ++ B))
    (hpeer : Announces peer B) {work : Str} (hwork : chainworkHex A = .ok work) :
    asksPeer work A peer = .ok true ∧ A.length ≤ B.length ∧ A ≠ B ∨
      asksPeer work A peer = .ok false ∧ (A = B ∨ B.length < A.length) := by
  have hasks := syncsFrom_eq A peer
  rw [hwork, except_ok_bind] at hasks
  rw [← hasks]
  have hcompare := comparesWork_of_text ((chainworkHex_ok hB.work).1 hpeer.work)
  obtain ⟨tip, htip⟩ := Option.isSome_iff_exists.1 (List.getLast?_isSome.2 hA.ne_nil)
  obtain ⟨top, htop, hbest, hhash⟩ := hpeer.tip
  have htipOf : tipOf A = .ok tip := orThrow_ok.2 htip
  have htipHash := hA.hashHex_id (List.mem_of_getLast? htip)
  have htopHash := hB.hashHex_id (List.mem_of_getLast? htop)
  have htopId : peer.tipHash = top.id := Except.ok.inj (hhash.symm.trans htopHash)
  by_cases hid : tip.id = top.id
  · obtain rfl := hsep tip (List.mem_append_left _ (List.mem_of_getLast? htip)) top
      (List.mem_append_right _ (List.mem_of_getLast? htop)) hid
    have heq := hA.eq_of_tip hB hsep htip htop
    refine .inr ⟨?_, .inl heq⟩
    exact (hcompare.sameTip htipOf hhash hA.work hA.work_lt).2 ⟨hbest, by rw [heq]⟩
  · have hne : peer.tipHash ≠ tip.id := by
      rw [htopId]
      exact Ne.symm hid
    have hle : A.length * testnetBlockWork ≤ B.length * testnetBlockWork ↔ A.length ≤ B.length :=
      Nat.mul_le_mul_right_iff (by decide)
    rw [hcompare.asks htipOf htipHash hA.work hA.work_lt hne]
    by_cases hlength : A.length ≤ B.length
    · refine .inl ⟨by rw [decide_eq_true (hle.2 hlength)], hlength, ?_⟩
      rintro rfl
      rw [htip] at htop
      exact hid (congrArg StoredBlock.id (Option.some.inj htop))
    · exact .inr ⟨by rw [decide_eq_false fun h => hlength (hle.1 h)], .inr (by omega)⟩

variable [InetText]

/-- **The client ends with the longer chain.** -/
theorem syncChain_run (hS : TestnetChain.Commits S) (hnetwork : Exchangeable network)
    {s : PeerSync σ ServerSession} (hs : Idle A files s) (hd : Holds network s.directory)
    (hB : Chain files.blocks uB) (hBnet : files.blocks ⊆ network)
    (hpeer : Announces peer files.blocks) (hheight : files.blocks.length ≤ 1000001) {rounds : ℕ}
    (hrounds : files.blocks.length ≤ maxHeadersPerResponse * rounds) (before : UInt64) {work : Str}
    (hwork : chainworkHex A = .ok work) : ∃ result d',
      (syncChain (ServerSession.receive t n) S before work peer rounds).run s =
        .ok (some result) { s with directory := d' } ∧
      Adopted A files.blocks uB s.directory d' ∧ Holds network d' ∧
      d'.node.mempool = s.directory.node.mempool := by
  have hA : Chain A s.directory.node.chain.utxos := by
    rw [← hs.blocks]
    exact hd.valid
  have hsep : Separate (A ++ files.blocks) := by
    refine hnetwork.separate.mono (List.append_subset.2 ⟨?_, hBnet⟩)
    rw [← hs.blocks]
    exact hd.chain
  rcases asksPeer_run hA hB hsep hpeer hwork with ⟨hasks, hle, hne⟩ | ⟨hasks, hnot⟩
  · obtain ⟨result, d', hrun, hresult⟩ := syncCandidate_run (t := t) (n := n) hS hnetwork hs hd hB
      hBnet hpeer hheight hle hne hrounds
    refine ⟨result, d', ?_, hresult⟩
    rw [syncChain, run_bind_of_ok chainBlocks_run, hs.blocks,
      run_bind_of_ok (lift_run_ok.2 ⟨hA.work, rfl⟩), run_bind_of_ok (lift_run_ok.2 ⟨hasks, rfl⟩)]
    exact hrun
  · have hle : files.blocks.length ≤ A.length := by
      rcases hnot with rfl | hlt
      · exact Nat.le_refl _
      · exact hlt.le
    have hrun : ∃ result, (syncChain (ServerSession.receive t n) S before work peer rounds).run s =
        .ok (some result) s := by
      rw [syncChain, run_bind_of_ok chainBlocks_run, hs.blocks,
        run_bind_of_ok (lift_run_ok.2 ⟨hA.work, rfl⟩), run_bind_of_ok (lift_run_ok.2 ⟨hasks, rfl⟩)]
      exact ⟨_, rfl⟩
    obtain ⟨result, hrun⟩ := hrun
    exact ⟨result, s.directory, hrun, ⟨fun hlt => absurd hle (Nat.not_le.2 hlt), fun _ => rfl,
      fun hlt => absurd hle (Nat.not_le.2 hlt), fun hlt => absurd hle (Nat.not_le.2 hlt),
      fun _ h => .inl h⟩, hd, rfl⟩

/-! ## The handshake -/

omit [InetText] in
/-- What a node says of its chain. -/
theorem announces_of_localVersion (h : localVersion t n B = .ok peer) :
    Announces peer B := by
  refine ⟨?_, (localVersion_ok h).2⟩
  simp only [localVersion, except_bind_ok, except_pure_ok] at h
  obtain ⟨tip, htip, hash, hhash, work, -, rfl⟩ := h
  exact ⟨tip, orThrow_ok.1 htip, rfl, hhash⟩

theorem receive_version {payload : Bytes} {client version : PeerVersion}
    (hclient : deserializeVersion payload = .ok client)
    (hversion : localVersion t n files.blocks = .ok version) : ∃ payload',
      deserializeVersion payload' = .ok version ∧
      ServerSession.receive t n ⟨files, .version⟩ ⟨str "version", payload⟩ =
        (⟨files, .verack⟩, [⟨str "version", payload'⟩]) := by
  obtain ⟨payload', hpayload, hread, hlength⟩ := version_payload (localVersion_ok hversion).1
  refine ⟨payload', hread, ?_⟩
  have hserve : (serveVersion t n ⟨str "version", payload⟩).run ⟨files, []⟩ =
      .ok () ⟨files, [⟨str "version", payload'⟩]⟩ := by
    have hexpect : expectCommand ⟨str "version", payload⟩ (str "version") = .ok () :=
      throwIf_ok.2 (not_not.2 rfl)
    have hget : (get : ServerM Serving).run ⟨files, []⟩ = .ok ⟨files, []⟩ ⟨files, []⟩ := rfl
    rw [serveVersion, run_bind_of_ok (lift_run_ok.2 ⟨hexpect, rfl⟩),
      run_bind_of_ok (lift_run_ok.2 ⟨hclient, rfl⟩), run_bind_of_ok hget,
      run_bind_of_ok (lift_run_ok.2 ⟨hversion, rfl⟩), run_bind_of_ok (lift_run_ok.2 ⟨hpayload, rfl⟩),
      reply_run (validateCommand_ok.1 rfl) hlength]
    rfl
  have hmessage : (serveMessage t n .version ⟨str "version", payload⟩).run ⟨files, []⟩ =
      .ok .verack ⟨files, [⟨str "version", payload'⟩]⟩ := by
    rw [serveMessage, run_bind_of_ok hserve]
    rfl
  rw [ServerSession.receive, hmessage]

theorem receive_verack : ServerSession.receive t n ⟨files, .verack⟩ ⟨str "verack", []⟩ =
    (⟨files, .request⟩, [⟨str "verack", []⟩]) := by
  have hserve : (serveVerack ⟨str "verack", []⟩).run ⟨files, []⟩ =
      .ok () ⟨files, [⟨str "verack", []⟩]⟩ := by
    have hexpect : expectCommand ⟨str "verack", []⟩ (str "verack") = .ok () :=
      throwIf_ok.2 (not_not.2 rfl)
    rw [serveVerack, run_bind_of_ok (lift_run_ok.2 ⟨hexpect, rfl⟩),
      run_bind_of_ok ((throwIf_run_ok (u := ())).2 ⟨not_not.2 rfl, rfl⟩),
      reply_run (validateCommand_ok.1 rfl) (Nat.zero_le _)]
    rfl
  have hmessage : (serveMessage t n .verack ⟨str "verack", []⟩).run ⟨files, []⟩ =
      .ok .request ⟨files, [⟨str "verack", []⟩]⟩ := by
    rw [serveMessage, run_bind_of_ok hserve]
    rfl
  rw [ServerSession.receive, hmessage]

/-- **The handshake** of two nodes tells the client what the server has. -/
theorem clientHandshake_run {s : PeerSync σ ServerSession} (hremote : s.remote = ⟨files, .version⟩)
    (hinbox : s.inbox = []) (hA : Chain s.directory.node.chain.blocks uA)
    (hB : Chain files.blocks uB) : ∃ peer s',
      (clientHandshake (ServerSession.receive t n)).run s = .ok peer s' ∧
      Announces peer files.blocks ∧ s'.directory = s.directory ∧
      Idle s.directory.node.chain.blocks files s' := by
  obtain ⟨client, hclient⟩ := hA.localVersion (s.draws 0).1 (s.draws 0).2
  obtain ⟨payload, hpayload, hread, hlength⟩ := version_payload (localVersion_ok hclient).1
  obtain ⟨version, hversion⟩ := hB.localVersion t n
  obtain ⟨payload', hread', hreceive⟩ := receive_version hread hversion
  have hdraw : (draw : PeerSyncM σ ServerSession _).run s =
      .ok (s.draws 0) { s with draws := fun n => s.draws (n + 1) } := rfl
  have hsend : (sendVersion (ServerSession.receive t n) (str "version")).run s =
      .ok () { s with
        draws := fun n => s.draws (n + 1)
        remote := ⟨files, .verack⟩
        inbox := [⟨str "version", payload'⟩] } := by
    rw [← hremote] at hreceive
    have hpayloadSent := sendToPeer_run (s := { s with draws := fun n => s.draws (n + 1) })
      (validateCommand_ok.1 rfl) hlength hreceive
    rw [sendVersion, run_bind_of_ok chainBlocks_run, run_bind_of_ok hdraw,
      run_bind_of_ok (lift_run_ok.2 ⟨hclient, rfl⟩), run_bind_of_ok (lift_run_ok.2 ⟨hpayload, rfl⟩),
      hpayloadSent, hinbox]
    rfl
  have hexpect : expectCommand ⟨str "version", payload'⟩ (str "version") = .ok () :=
    throwIf_ok.2 (not_not.2 rfl)
  have hexpect' : expectCommand ⟨str "verack", []⟩ (str "verack") = .ok () :=
    throwIf_ok.2 (not_not.2 rfl)
  refine ⟨version, { s with
    draws := fun n => s.draws (n + 1)
    remote := ⟨files, .request⟩
    inbox := [] }, ?_, announces_of_localVersion hversion, rfl, rfl, rfl, rfl⟩
  rw [clientHandshake, run_bind_of_ok hsend, run_bind_of_ok (nextMessage_run rfl),
    run_bind_of_ok (lift_run_ok.2 ⟨hexpect, rfl⟩), run_bind_of_ok (lift_run_ok.2 ⟨hread', rfl⟩),
    run_bind_of_ok (sendToPeer_run (validateCommand_ok.1 rfl) (Nat.zero_le _) receive_verack),
    run_bind_of_ok (nextMessage_run rfl), run_bind_of_ok (lift_run_ok.2 ⟨hexpect', rfl⟩),
    run_bind_of_ok ((throwIf_run_ok (u := ())).2 ⟨not_not.2 rfl, rfl⟩)]
  rfl

/-! ## The addresses -/

omit [Crypto] [InetText] in
theorem onPeers_run {s : PeerSync σ ServerSession} {x : PeerM Unit} {peers : PeerStore}
    (h : x.run s.peers = .ok () peers) :
    (onPeers x : PeerSyncM σ ServerSession Unit).run s = .ok () { s with peers := peers } := by
  rw [EStateM.run, onPeers]
  rw [EStateM.run] at h
  rw [h]

omit [Crypto] in
/-- What a server sends for addresses is taken. -/
theorem mergeAddresses_run {s : PeerSync σ ServerSession} {payload : Bytes}
    {received : List PeerRecord} (h : deserializeAddrv2 payload = .ok received) : ∃ peers,
      (mergeAddresses payload).run s = .ok () { s with peers := peers } := by
  have hmerge : ∀ records : List PeerRecord, ∀ s : PeerSync σ ServerSession, ∃ peers,
      (forM records fun record => onPeers (PeerStore.addOrUpdate record) :
        PeerSyncM σ ServerSession Unit).run s = .ok () { s with peers := peers } := by
    intro records
    induction records with
    | nil => exact fun s => ⟨s.peers, rfl⟩
    | cons record records ih =>
      intro s
      have hfirst := onPeers_run (s := s) (PeerStore.addOrUpdate_run record s.peers)
      obtain ⟨peers, hrest⟩ := ih { s with peers := _ }
      refine ⟨peers, ?_⟩
      rw [List.forM_cons, run_bind_of_ok hfirst, hrest]
  obtain ⟨peers, hrun⟩ := hmerge received s
  refine ⟨{ peers with file := some (PeerStore.text peers.records) }, ?_⟩
  rw [mergeAddresses, run_bind_of_ok (lift_run_ok.2 ⟨h, rfl⟩), run_bind_of_ok hrun]
  exact onPeers_run rfl

/-! ## The mempool -/

/-- The mempool of the server is sent, or the server ends the connection. -/
theorem serve_getmempool_cases (files : Served) :
    (∃ payload, serializeTransactions files.mempool.transactions = .ok payload ∧
      (serveRequest ⟨str "getmempool", []⟩).run ⟨files, []⟩ =
        .ok true ⟨files, [⟨str "txs", payload⟩]⟩) ∨
    (¬ ∃ payload, serializeTransactions files.mempool.transactions = .ok payload ∧
      payload.length ≤ maxP2pPayload) ∧
      ServerSession.receive t n ⟨files, .request⟩ ⟨str "getmempool", []⟩ = (⟨files, .closed⟩, []) := by
  by_cases h : ∃ payload, serializeTransactions files.mempool.transactions = .ok payload ∧
      payload.length ≤ maxP2pPayload
  · obtain ⟨payload, hpayload, hlength⟩ := h
    exact .inl ⟨payload, hpayload, serve_getmempool hpayload hlength⟩
  refine .inr ⟨h, ?_⟩
  obtain ⟨e, hserve⟩ : ∃ e, (serveRequest ⟨str "getmempool", []⟩).run ⟨files, []⟩ =
      .error e ⟨files, []⟩ := by
    rw [serveRequest_getmempool]
    cases hpayload : serializeTransactions files.mempool.transactions with
    | error e => exact ⟨e, rfl⟩
    | ok payload =>
      have hlift : (liftM (Except.ok payload : Except Exn Bytes) : ServerM Bytes).run ⟨files, []⟩ =
        .ok payload ⟨files, []⟩ := rfl
      rw [run_bind_of_ok hlift, reply]
      cases hframe : encodeP2pFrame (str "txs") payload with
      | error e => exact ⟨e, rfl⟩
      | ok frame =>
        have hlength := ((encodeP2pFrame_ok : _ ↔ (Message.mk _ _).Ok ∧ _).1 hframe).1.2
        exact absurd ⟨payload, hpayload, hlength⟩ h
  have hmessage : (serveMessage t n .request ⟨str "getmempool", []⟩).run ⟨files, []⟩ =
      .error e ⟨files, []⟩ := by
    rw [serveMessage, EStateM.run_bind, hserve]
  rw [ServerSession.receive, hmessage]

omit [InetText] in
theorem Node.Ok.addEach {node : Node σ} (hn : node.Ok) (ts : List Transaction) : ∃ node',
    (Node.addEach ts).run node = .ok () node' ∧ node'.Ok ∧ node'.chain = node.chain := by
  obtain ⟨height, hheight, hmempool⟩ := hn.mempool
  obtain ⟨m, hrun, hok, -⟩ := Node.addEach_run hheight hmempool ts
  exact ⟨_, hrun, ⟨hn.chain, height, hheight, hok⟩, rfl⟩

/-- A peer that has closed the connection. -/
theorem receiveUntil_closed {π : Type} {remote : Remote π} {s : PeerSync σ π} (h : s.inbox = [])
    (expected : List Str) : (receiveUntil remote S expected).run s =
      .error (runtimeError "Peer closed connection unexpectedly") s := by
  have hget : (get : PeerSyncM σ π (PeerSync σ π)).run s = .ok s s := rfl
  have hnext : nextMessage.run s = .error (runtimeError "Peer closed connection unexpectedly") s := by
    rw [nextMessage, run_bind_of_ok hget, h]
    rfl
  rw [receiveUntil, receiveAmong, EStateM.run_bind, hnext]

/-- What the part on the mempool leaves, whether it returns or throws. -/
structure Settled (s s' : PeerSync σ ServerSession) : Prop where
  branches : s'.directory.branches = s.directory.branches
  chain : s'.directory.node.chain = s.directory.node.chain
  node : s'.directory.node.Ok

omit [InetText] in
theorem Settled.trans {s s' s'' : PeerSync σ ServerSession} (h : Settled s s')
    (h' : Settled s' s'') : Settled s s'' :=
  ⟨h'.branches.trans h.branches, h'.chain.trans h.chain, h'.node⟩

omit [InetText] in
theorem Settled.holds {s s' : PeerSync σ ServerSession} (h : Settled s s')
    (hd : Holds network s.directory) : Holds network s'.directory := by
  refine ⟨?_, ?_, ?_, ?_⟩
  · rw [h.chain]
    exact hd.valid
  · rw [h.branches]
    exact hd.loads
  · rw [h.chain]
    exact hd.chain
  · rw [h.branches]
    exact hd.branches

omit [InetText] in
theorem Settled.adopted {s s' : PeerSync σ ServerSession} (h : Settled s s') {B : List StoredBlock}
    {d : DataDirectory σ} (hd : Adopted A B uB d s.directory) : Adopted A B uB d s'.directory := by
  refine ⟨?_, ?_, ?_, ?_, ?_⟩
  · rw [h.chain]
    exact hd.longer
  · rw [h.chain]
    exact hd.kept
  · rw [h.branches]
    exact hd.disconnected
  · rw [h.branches]
    exact hd.active
  · rw [h.branches, h.chain]
    exact hd.remembered

/-- A mempool that applies to the chain still does once the transactions of the server have been
    added, and the call returns if the mempool of the server fits into a message. -/
theorem requestMempool_run {s : PeerSync σ ServerSession} (hs : Idle A files s)
    (hnode : s.directory.node.Ok) : ∃ r s',
      (do
        sendToPeer (ServerSession.receive t n) (str "getmempool") []
        let response ← receiveUntil (ServerSession.receive t n) S [str "txs"]
        let transactions ← deserializeTransactions response.payload
        inDirectory (onNode (Node.addEach transactions))
        sendToPeer (ServerSession.receive t n) (str "bye") [] :
          PeerSyncM σ ServerSession Unit).run s = r ∧
      Settled s s' ∧ (r = .ok () s' ∨ ∃ e, r = .error e s') ∧
      ((∃ payload, TransactionsOk files.mempool.transactions ∧
          serializeTransactions files.mempool.transactions = .ok payload ∧
          payload.length ≤ maxP2pPayload) → r = .ok () s') := by
  have hcommand : CommandOk (str "getmempool") := validateCommand_ok.1 rfl
  rcases serve_getmempool_cases (t := t) (n := n) files with
    ⟨payload, hpayload, hserve⟩ | ⟨hnot, hclosed⟩
  · have hmember : (⟨str "txs", payload⟩ : Message).command ∈ [str "txs"] := List.mem_singleton.2 rfl
    rw [request_run hs hcommand (Nat.zero_le _) hserve hmember]
    cases hread : deserializeTransactions payload with
    | error e =>
      refine ⟨_, s, rfl, ⟨rfl, rfl, hnode⟩, .inr ⟨e, rfl⟩, ?_⟩
      rintro ⟨payload', hok, hpayload', -⟩
      obtain ⟨payload'', hpayload'', hread'⟩ := transactions_strict.roundTrip _ hok
      obtain rfl := Except.ok.inj (hpayload''.symm.trans hpayload)
      rw [hread] at hread'
      cases hread'
    | ok transactions =>
      obtain ⟨node, hadd, hok, hchain⟩ := hnode.addEach transactions
      obtain ⟨session, messages, hbye⟩ : ∃ session messages,
          ServerSession.receive t n s.remote ⟨str "bye", []⟩ = (session, messages) := ⟨_, _, rfl⟩
      have hadded : (inDirectory (onNode (Node.addEach transactions)) :
          PeerSyncM σ ServerSession Unit).run s =
            .ok () { s with directory := { s.directory with node := node } } := onNode_run hadd
      have hsent : (sendToPeer (ServerSession.receive t n) (str "bye") []).run
          { s with directory := { s.directory with node := node } } = .ok () { s with
            directory := { s.directory with node := node }
            remote := session
            inbox := s.inbox ++ messages } :=
        sendToPeer_run (validateCommand_ok.1 rfl) (Nat.zero_le _) hbye
      have hlift : (liftM (Except.ok transactions : Except Exn (List Transaction)) :
          PeerSyncM σ ServerSession (List Transaction)).run s = .ok transactions s := rfl
      rw [run_bind_of_ok hlift, run_bind_of_ok hadded, hsent]
      exact ⟨_, { s with
        directory := { s.directory with node := node }
        remote := session
        inbox := s.inbox ++ messages }, rfl, ⟨rfl, hchain, hok⟩, .inl rfl, fun _ => rfl⟩
  · rw [← hs.remote] at hclosed
    have hsent := sendToPeer_run (s := s) hcommand (Nat.zero_le _) hclosed
    have hempty : s.inbox ++ [] = [] := by
      rw [hs.inbox]
      rfl
    rw [run_bind_of_ok hsent, EStateM.run_bind, receiveUntil_closed hempty]
    refine ⟨_, { s with remote := ⟨files, .closed⟩, inbox := s.inbox ++ [] }, rfl,
      ⟨rfl, rfl, hnode⟩, .inr ⟨_, rfl⟩, fun h => absurd h ?_⟩
    rintro ⟨payload, -, hpayload, hlength⟩
    exact hnot ⟨payload, hpayload, hlength⟩

/-- **The mempool** applies to the new chain in the end, and the call returns if the mempool of the
    server fits into a message. -/
theorem syncMempool_run {s : PeerSync σ ServerSession} (hs : Idle A files s)
    (hvalid : s.directory.node.chain.Valid) {chain : TestnetChain σ}
    (hmempool : Node.Ok ⟨chain, s.directory.node.mempool⟩) (disconnected : List Transaction) : ∃ s',
      Settled s s' ∧
      ((syncMempool (ServerSession.receive t n) S disconnected).run s = .ok () s' ∨
        ∃ e, (syncMempool (ServerSession.receive t n) S disconnected).run s = .error e s') ∧
      ((∃ payload, TransactionsOk files.mempool.transactions ∧
          serializeTransactions files.mempool.transactions = .ok payload ∧
          payload.length ≤ maxP2pPayload) →
        (syncMempool (ServerSession.receive t n) S disconnected).run s = .ok () s') := by
  obtain ⟨n₁, hrevalidate, hn₁⟩ := Node.onChain_revalidate hmempool hvalid
  have hchain₁ := Node.revalidate_chain hrevalidate
  obtain ⟨n₂, hadd, hn₂, hchain₂⟩ := hn₁.addEach disconnected
  have hidle : Idle A files { s with directory := { s.directory with node := n₂ } } :=
    ⟨hs.remote, hs.inbox, by rw [← hs.blocks, hchain₂, hchain₁]⟩
  obtain ⟨r, s', hr, hsettled, hends, hreturns⟩ := requestMempool_run (t := t) (n := n) (S := S) hidle
    hn₂
  have hrun : (syncMempool (ServerSession.receive t n) S disconnected).run s = r := by
    have hfirst : (inDirectory (onNode Node.revalidate) : PeerSyncM σ ServerSession Unit).run s =
        .ok () { s with directory := { s.directory with node := n₁ } } := onNode_run hrevalidate
    have hsecond : (inDirectory (onNode (Node.addEach disconnected)) :
        PeerSyncM σ ServerSession Unit).run { s with directory := { s.directory with node := n₁ } } =
          .ok () { s with directory := { s.directory with node := n₂ } } := onNode_run hadd
    rw [syncMempool, run_bind_of_ok hfirst, run_bind_of_ok hsecond, hr]
  have hadded : Settled s { s with directory := { s.directory with node := n₂ } } :=
    ⟨rfl, hchain₂.trans hchain₁, hn₂⟩
  rw [hrun]
  exact ⟨s', hadded.trans hsettled, hends, hreturns⟩

/-! ## The call -/

/-- What a call leaves, whether it returns or throws. -/
structure Synced (network A B : List StoredBlock) (uB : UtxoSet) (d d' : DataDirectory σ) : Prop where
  adopted : Adopted A B uB d d'
  holds : Holds network d'
  node : d'.node.Ok

/-- **A call with a server of the same code** ends with the chain that has more work, with a mempool
    that applies to it, and with every block that has left the chain in the store of side branches;
    and it returns if the mempool of the server fits into a message. -/
theorem syncFromPeer_run (hS : TestnetChain.Commits S) (hnetwork : Exchangeable network)
    {s : PeerSync σ ServerSession} (hremote : s.remote = ⟨files, .version⟩) (hinbox : s.inbox = [])
    (hd : Holds network s.directory) (hnode : s.directory.node.Ok) (hB : Chain files.blocks uB)
    (hBnet : files.blocks ⊆ network) (hheight : files.blocks.length ≤ 1000001) (rounds : ℕ)
    (hrounds : files.blocks.length ≤ maxHeadersPerResponse * rounds) (endpoint : PeerEndpoint) :
    ∃ s', Synced network s.directory.node.chain.blocks files.blocks uB s.directory s'.directory ∧
      ((∃ result, (syncFromPeer (ServerSession.receive t n) S endpoint rounds).run s =
          .ok (some result) s') ∨
        ∃ e, (syncFromPeer (ServerSession.receive t n) S endpoint rounds).run s = .error e s') ∧
      ((∃ payload, TransactionsOk files.mempool.transactions ∧
          serializeTransactions files.mempool.transactions = .ok payload ∧
          payload.length ≤ maxP2pPayload) →
        ∃ result, (syncFromPeer (ServerSession.receive t n) S endpoint rounds).run s =
          .ok (some result) s') := by
  have hA : Chain s.directory.node.chain.blocks s.directory.node.chain.utxos := hd.valid
  obtain ⟨tip, htip⟩ := Option.isSome_iff_exists.1 (List.getLast?_isSome.2 hA.ne_nil)
  have htipOf : tipOf s.directory.node.chain.blocks = .ok tip := orThrow_ok.2 htip
  have hwork := (chainworkHex_ok hA.work).2 (uint256ToHex_of_lt hA.work_lt)
  obtain ⟨peer, s₁, hhandshake, hpeer, hdirectory, hidle⟩ :=
    clientHandshake_run (t := t) (n := n) hremote hinbox hA hB
  -- the peer store
  have hdraw : (draw : PeerSyncM σ ServerSession _).run s₁ =
      .ok (s₁.draws 0) { s₁ with draws := fun n => s₁.draws (n + 1) } := rfl
  obtain ⟨records, -, hmark⟩ := PeerStore.markSuccess_run (s₁.draws 0).1 endpoint peer.services s₁.peers
  have hmarked : (onPeers (PeerStore.markSuccess (s₁.draws 0).1 endpoint peer.services) :
      PeerSyncM σ ServerSession Unit).run { s₁ with draws := fun n => s₁.draws (n + 1) } = _ :=
    onPeers_run hmark
  obtain ⟨hlength, received, hreceived⟩ := addrv2_payload files.peers
  have hidle₂ : Idle s.directory.node.chain.blocks files { s₁ with
      draws := fun n => s₁.draws (n + 1)
      peers := ⟨records, some (PeerStore.text records)⟩ } :=
    ⟨hidle.remote, hidle.inbox, hidle.blocks⟩
  have hcommand : CommandOk (str "getaddr") := validateCommand_ok.1 rfl
  have hmember : (⟨str "addrv2", serializeAddrv2 files.peers⟩ : Message).command ∈ [str "addrv2"] :=
    List.mem_singleton.2 rfl
  obtain ⟨peers, hmerge⟩ := mergeAddresses_run
    (s := { s₁ with
      draws := fun n => s₁.draws (n + 1)
      peers := ⟨records, some (PeerStore.text records)⟩ }) hreceived
  -- the chain
  have hidle₃ : Idle s.directory.node.chain.blocks files
      { s₁ with draws := fun n => s₁.draws (n + 1), peers := peers } :=
    ⟨hidle.remote, hidle.inbox, hidle.blocks⟩
  obtain ⟨result, d', hchain, hadopted, hd', hmempool⟩ := syncChain_run (t := t) (n := n) hS hnetwork
    hidle₃ (hdirectory ▸ hd) hB hBnet hpeer hheight hrounds tip.height hwork
  rw [show ({ s₁ with draws := fun n => s₁.draws (n + 1), peers := peers } :
    PeerSync σ ServerSession).directory = s.directory from hdirectory] at hadopted hmempool
  -- the mempool
  have hidle₄ : Idle d'.node.chain.blocks files
      { s₁ with directory := d', draws := fun n => s₁.draws (n + 1), peers := peers } :=
    ⟨hidle.remote, hidle.inbox, rfl⟩
  have hold : Node.Ok ⟨s.directory.node.chain, d'.node.mempool⟩ := by
    rw [hmempool]
    exact hnode
  obtain ⟨s', hsettled, hends, hreturns⟩ := syncMempool_run (t := t) (n := n) (S := S) hidle₄ hd'.valid
    hold result.activation.disconnectedTransactions
  have hrun : (syncFromPeer (ServerSession.receive t n) S endpoint rounds).run s = (do
      syncMempool (ServerSession.receive t n) S result.activation.disconnectedTransactions
      return some (peer, result) : PeerSyncM σ ServerSession _).run
        { s₁ with directory := d', draws := fun n => s₁.draws (n + 1), peers := peers } := by
    rw [syncFromPeer, run_bind_of_ok chainBlocks_run, run_bind_of_ok (lift_run_ok.2 ⟨htipOf, rfl⟩),
      run_bind_of_ok (lift_run_ok.2 ⟨hwork, rfl⟩), run_bind_of_ok hhandshake, run_bind_of_ok hdraw,
      run_bind_of_ok hmarked,
      request_run hidle₂ hcommand (Nat.zero_le _) (serve_getaddr hlength) hmember,
      run_bind_of_ok hmerge, run_bind_of_ok hchain]
  have hreturned : (syncMempool (ServerSession.receive t n) S
      result.activation.disconnectedTransactions).run
        { s₁ with directory := d', draws := fun n => s₁.draws (n + 1), peers := peers } = .ok () s' →
      (syncFromPeer (ServerSession.receive t n) S endpoint rounds).run s =
        .ok (some (peer, result)) s' := by
    intro h
    rw [hrun, run_bind_of_ok h]
    rfl
  refine ⟨s', ⟨hsettled.adopted hadopted, hsettled.holds hd', hsettled.node⟩, ?_,
    fun h => ⟨_, hreturned (hreturns h)⟩⟩
  rcases hends with h | ⟨e, h⟩
  · exact .inl ⟨_, hreturned h⟩
  · refine .inr ⟨e, ?_⟩
    rw [hrun, EStateM.run_bind, h]

end BinaryCoin
