/-
  BinaryCoin — net.cpp: `sync_from_peer` with a `TestnetP2pServer`.

  Both sides run the code of the repository, on chains that may have parted at
  any height.  Every message of the client is answered at once, and the call
  ends with the chain of the server if that one has more work.
-/
import BinaryCoin.SyncFromPeer

namespace BinaryCoin

open Cursor Std Stateful SideBranchStore

section
variable [Crypto]

/-! ## Payloads that fit into a frame -/

/-- What a server sends for headers. -/
theorem headers_payload {headers : List HeaderRecord} (h : HeadersOk headers) :
    ∃ payload, serializeHeaders headers = .ok payload ∧ deserializeHeaders payload = .ok headers ∧
      payload.length ≤ maxP2pPayload := by
  obtain ⟨payload, hpayload, hread⟩ := headers_strict.roundTrip headers h
  refine ⟨payload, hpayload, hread, ?_⟩
  have happend : ∀ record ∈ headers, ∀ output,
      appendHeaderRecord output record = .ok (output ++ record.encode) := by
    intro record hrecord output
    have hzero : compactSize 0 = [0] := by decide
    simp only [appendHeaderRecord, (h.each record hrecord).canonical.serialize, appendU64Le,
      appendCompactSize, HeaderRecord.encode, hzero, ← List.append_assoc]
    rfl
  simp only [serializeHeaders, foldlM_append happend, except_bind_ok, throwIf_ok] at hpayload
  obtain ⟨-, -, hpayload⟩ := hpayload
  have hsize : (headers.flatMap HeaderRecord.encode).length ≤ 89 * headers.length :=
    length_flatMap_le_mul fun record hmem => by
      rw [HeaderRecord.encode, List.length_append, List.length_append, LittleEndian.length_leBytes,
        (h.each record hmem).canonical.length_encode]
      decide
  have hcount := h.count
  have hcompact := length_compactLength_le headers
  rw [← Except.ok.inj hpayload, List.length_append]
  simp only [appendCompactSize, List.nil_append, maxHeadersPerResponse, maxP2pPayload] at *
  rw [compactLength] at hcompact
  omega

omit [Crypto] in
theorem version_payload {version : PeerVersion} (h : version.Ok) :
    ∃ payload, serializeVersion version = .ok payload ∧ deserializeVersion payload = .ok version ∧
      payload.length ≤ maxP2pPayload := by
  obtain ⟨payload, hpayload, hread⟩ := version_strict.roundTrip version h
  refine ⟨payload, hpayload, hread, ?_⟩
  obtain ⟨-, rfl⟩ := deserializeVersion_ok.1 hread
  have hgenesis : IsDisplayHex version.genesisHash := h.genesis ▸ testnetGenesisHash_isDisplayHex
  have hagent := h.userAgent
  have hcompact := length_compactLength_le version.userAgent
  simp only [PeerVersion.encode, sized, List.length_append, LittleEndian.length_leBytes,
    length_wireOf hgenesis, length_wireOf h.tipHash, length_wireOf h.chainwork, maxUserAgentSize,
    maxP2pPayload] at *
  omega

omit [Crypto] in
theorem addrv2_payload [InetText] (records : List PeerRecord) :
    (serializeAddrv2 records).length ≤ maxP2pPayload ∧
      ∃ received, deserializeAddrv2 (serializeAddrv2 records) = .ok received := by
  rw [serializeAddrv2_eq]
  have hcount : ((encodableOf records).map EncodedAddress.entry).length ≤ maxAddrv2Items := by
    rw [List.length_map]
    exact List.length_take_le _ _
  have haddress : ∀ entry ∈ (encodableOf records).map EncodedAddress.entry,
      entry.address.length ≤ 16 := by
    intro entry hmem
    obtain ⟨encoded, hencoded, rfl⟩ := List.mem_map.1 hmem
    obtain ⟨-, -, -, hsize⟩ := encodableOf_address hencoded
    show encoded.address.length ≤ 16
    rw [hsize]
    cases encoded.network <;> decide
  have hentry : ∀ entry ∈ (encodableOf records).map EncodedAddress.entry,
      entry.encode.length ≤ 41 := by
    intro entry hmem
    obtain ⟨high, low, hport, -⟩ := portBytes_read entry.port
    have hservices : (compactSize entry.services).length ≤ 9 := by
      rw [compactSize]
      split_ifs <;> simp
    have hcompact := length_compactLength_le entry.address
    have hsize := haddress entry hmem
    simp only [AddrEntry.encode, List.length_append, List.length_cons, LittleEndian.length_leBytes,
      hport, List.length_nil]
    omega
  have hentries := length_flatMap_le_mul hentry
  have hcompact := length_compactLength_le ((encodableOf records).map EncodedAddress.entry)
  refine ⟨?_, _, deserializeAddrv2_ok.2 ⟨_, hcount, fun entry hmem => ?_, rfl, rfl⟩⟩
  · rw [encodeAddresses, List.length_append]
    simp only [maxAddrv2Items, maxP2pPayload] at *
    omega
  · have hsize := haddress entry hmem
    show entry.address.length < 2 ^ 64
    omega

/-! ## Calls -/

variable {σ π α : Type} {s : PeerSync σ π} {remote : Remote π}

omit [Crypto] in
theorem inDirectory_run {x : SectionM σ α} {a : α} {d : DataDirectory σ}
    (h : x.run s.directory = .ok a d) :
    (inDirectory x : PeerSyncM σ π α).run s = .ok a { s with directory := d } := by
  rw [EStateM.run, inDirectory]
  rw [EStateM.run] at h
  rw [h]

omit [Crypto] in
theorem onBranches_run {x : SideBranchM α} {a : α} {branches : SideBranchStore}
    (h : x.run s.directory.branches = .ok a branches) :
    (inDirectory (onBranches x) : PeerSyncM σ π α).run s =
      .ok a { s with directory := { s.directory with branches := branches } } :=
  inDirectory_run (onBranches_run_ok.2 ⟨branches, h, rfl⟩)

omit [Crypto] in
theorem onNode_run {x : NodeM σ α} {a : α} {node : Node σ}
    (h : x.run s.directory.node = .ok a node) :
    (inDirectory (onNode x) : PeerSyncM σ π α).run s =
      .ok a { s with directory := { s.directory with node := node } } :=
  inDirectory_run (onNode_run_ok.2 ⟨node, h, rfl⟩)

theorem sendToPeer_run {command : Str} {payload : Bytes} {peer : π} {messages : List Message}
    (hcommand : CommandOk command) (hlength : payload.length ≤ maxP2pPayload)
    (h : remote s.remote ⟨command, payload⟩ = (peer, messages)) :
    (sendToPeer remote command payload).run s =
      .ok () { s with remote := peer, inbox := s.inbox ++ messages } := by
  have hrun : (sendToPeer remote command payload : PeerSyncM σ π Unit).run s =
      .ok () { s with
        remote := (remote s.remote ⟨command, payload⟩).1
        inbox := s.inbox ++ (remote s.remote ⟨command, payload⟩).2 } := by
    rw [sendToPeer, encodeP2pFrame_sent hcommand hlength]
    rfl
  rw [hrun, h]

omit [Crypto] in
theorem nextMessage_run {m : Message} {inbox : List Message} (h : s.inbox = m :: inbox) :
    nextMessage.run s = .ok m { s with inbox := inbox } := by
  have hget : (get : PeerSyncM σ π (PeerSync σ π)).run s = .ok s s := rfl
  rw [nextMessage, run_bind_of_ok hget, h]
  rfl

theorem receiveUntil_run [InetText] {S : ChainStore σ} {expected : List Str} {m : Message}
    {inbox : List Message} (h : s.inbox = m :: inbox) (hexpected : m.command ∈ expected) :
    (receiveUntil remote S expected).run s = .ok m { s with inbox := inbox } := by
  rw [receiveUntil, receiveAmong, run_bind_of_ok (nextMessage_run h), if_pos hexpected]
  rfl

/-! ## Headers -/

variable [InetText] {S : ChainStore σ} {t : Int64} {n : UInt64} {files : Served}
  {A B : List StoredBlock} {uA uB : UtxoSet} {peer : PeerVersion} {i j : ℕ}

/-- Between two requests: the server waits for one, and all that it has sent has been received. -/
structure Idle (A : List StoredBlock) (files : Served) (s : PeerSync σ ServerSession) : Prop where
  remote : s.remote = ⟨files, .request⟩
  inbox : s.inbox = []
  blocks : s.directory.node.chain.blocks = A

omit [Crypto] [InetText] in
theorem chainBlocks_run : (chainBlocks : PeerSyncM σ π (List StoredBlock)).run s =
    .ok s.directory.node.chain.blocks s := rfl

/-- A request and its only answer. -/
theorem request_run {s : PeerSync σ ServerSession} (hs : Idle A files s) {command : Str}
    {payload : Bytes} {m : Message} {expected : List Str} (hcommand : CommandOk command)
    (hlength : payload.length ≤ maxP2pPayload)
    (hserve : (serveRequest ⟨command, payload⟩).run ⟨files, []⟩ = .ok true ⟨files, [m]⟩)
    (hexpected : m.command ∈ expected) (k : Message → PeerSyncM σ ServerSession α) :
    (do sendToPeer (ServerSession.receive t n) command payload
        let response ← receiveUntil (ServerSession.receive t n) S expected
        k response : PeerSyncM σ ServerSession α).run s = (k m).run s := by
  have hreceive : ServerSession.receive t n s.remote ⟨command, payload⟩ =
      (⟨files, .request⟩, [m]) := by
    rw [hs.remote]
    exact receive_request rfl hserve
  have hinbox : { s with
      remote := (⟨files, .request⟩ : ServerSession)
      inbox := s.inbox ++ [m] }.inbox = m :: [] := by rw [hs.inbox]; rfl
  rw [run_bind_of_ok (sendToPeer_run hcommand hlength hreceive),
    run_bind_of_ok (receiveUntil_run hinbox hexpected)]
  congr 1
  have hremote := hs.remote
  have hempty := hs.inbox
  cases s
  subst hremote hempty
  rfl

/-- **A round** brings the next headers of the server's chain. -/
theorem headersRound_run {s : PeerSync σ ServerSession} (hs : Idle A files s) (hA : Chain A uA)
    (hB : Chain files.blocks uB) (hsep : Separate (A ++ files.blocks))
    (hshared : A[i]? = files.blocks[i]?) (hpeer : Announces peer files.blocks) {d : HeaderDownload}
    (h : Requesting files.blocks i j d) :
    (files.blocks.length ≤ j + 1 + maxHeadersPerResponse →
      (headersRound (ServerSession.receive t n) S peer d).run s =
        .ok (true, ⟨headersBetween files.blocks i (files.blocks.length - 1), d.locator, i,
          d.requests + 1⟩) s) ∧
    (j + 1 + maxHeadersPerResponse < files.blocks.length → ∃ d',
      (headersRound (ServerSession.receive t n) S peer d).run s = .ok (false, d') s ∧
      Requesting files.blocks i (j + maxHeadersPerResponse) d') := by
  obtain ⟨hheaders, hok⟩ := headersAfterLocator_run hB h.locate
  obtain ⟨payload, hpayload, hdecode, hsize⟩ := headers_payload hok
  obtain ⟨request, hrequest, hlength⟩ := getheaders_payload h.ok
  obtain ⟨request', hrequest', hread⟩ := getheaders_strict.roundTrip _ h.ok
  obtain rfl := Except.ok.inj (hrequest'.symm.trans hrequest)
  have hanswer : answerGetheaders files.blocks request' = .ok payload := by
    rw [answerGetheaders, hread, except_ok_bind, hheaders, except_ok_bind, hpayload]
  have hround : ∀ {done : Bool} {d' : HeaderDownload},
      (acceptBatch peer ⟨A, payload⟩).run { d with requests := d.requests + 1 } = .ok done d' →
      (headersRound (ServerSession.receive t n) S peer d).run s = .ok (done, d') s := by
    intro done d' haccept
    have hmember : (⟨str "headers", payload⟩ : Message).command ∈ [str "headers"] :=
      List.mem_singleton.2 rfl
    rw [headersRound, run_bind_of_ok (lift_run_ok.2 ⟨hrequest', rfl⟩),
      request_run hs (validateCommand_ok.1 rfl) hlength (serve_getheaders hanswer hsize) hmember,
      run_bind_of_ok chainBlocks_run, hs.blocks, haccept]
    rfl
  obtain ⟨htop, hbelow⟩ := acceptBatch_run (s := { d with requests := d.requests + 1 }) hA hB hsep
    hshared hpeer ⟨⟨h.downloaded.le, h.downloaded.lt, h.downloaded.headers⟩, h.fork, h.more,
      h.locate, h.ok⟩ hdecode
  refine ⟨fun hlen => hround (htop hlen), fun hlen => ?_⟩
  obtain ⟨d', haccept, hrequesting, -⟩ := hbelow hlen
  exact ⟨d', hround haccept, hrequesting⟩

/-- **The loop ends with all the headers** of the server's chain above the block it starts from. -/
theorem fetchHeaders_run {s : PeerSync σ ServerSession} (hs : Idle A files s) (hA : Chain A uA)
    (hB : Chain files.blocks uB) (hsep : Separate (A ++ files.blocks))
    (hshared : A[i]? = files.blocks[i]?) (hpeer : Announces peer files.blocks) {d : HeaderDownload}
    (rounds : ℕ) (hrounds : files.blocks.length ≤ j + 1 + maxHeadersPerResponse * rounds)
    (h : Requesting files.blocks i j d) : ∃ locator requests,
      (fetchHeaders (ServerSession.receive t n) S peer rounds d).run s = .ok (some
        ⟨headersBetween files.blocks i (files.blocks.length - 1), locator, i, requests⟩) s := by
  induction rounds generalizing j d with
  | zero =>
    have hmore := h.more
    omega
  | succ rounds ih =>
    obtain ⟨htop, hbelow⟩ := headersRound_run (t := t) (n := n) (S := S) hs hA hB hsep
      hshared hpeer h
    by_cases hlen : files.blocks.length ≤ j + 1 + maxHeadersPerResponse
    · refine ⟨d.locator, d.requests + 1, ?_⟩
      rw [fetchHeaders, run_bind_of_ok (htop hlen)]
      rfl
    · obtain ⟨d', hround, hrequesting⟩ := hbelow (by omega)
      obtain ⟨locator, requests, hrest⟩ := ih (by rw [Nat.mul_succ] at hrounds; omega) hrequesting
      refine ⟨locator, requests, ?_⟩
      rw [fetchHeaders, run_bind_of_ok hround]
      exact hrest

/-! ## Blocks -/

/-- The bodies are blocks of a list, under their hashes. -/
def BodiesOf (all : List StoredBlock) (bodies : ExtTreeMap Str StoredBlock) : Prop :=
  ∀ (hash : Str) (x : StoredBlock), bodies[hash]? = some x → x ∈ all ∧ x.id = hash

variable {all blocks : List StoredBlock} {bodies : ExtTreeMap Str StoredBlock} {b : StoredBlock}

omit [InetText] in
/-- One more body. -/
theorem BodiesOf.insert (h : BodiesOf all bodies) (hsep : Separate all) (hb : b ∈ all) :
    BodiesOf all (bodies.insertIfNew b.id b) ∧ (bodies.insertIfNew b.id b)[b.id]? = some b ∧
      ∀ (hash : Str) (x : StoredBlock), bodies[hash]? = some x →
        (bodies.insertIfNew b.id b)[hash]? = some x := by
  refine ⟨fun hash x hx => ?_, ?_, fun hash x hx => ?_⟩
  · rw [OrdMap.getElem?_insertIfNew_eq] at hx
    split_ifs at hx with hnew
    · cases hx
      exact ⟨hb, hnew.1.symm⟩
    · exact h hash x hx
  · rw [OrdMap.getElem?_insertIfNew_eq]
    cases hold : bodies[b.id]? with
    | none => rw [if_pos ⟨rfl, rfl⟩]
    | some x =>
      obtain ⟨hx, hid⟩ := h _ _ hold
      rw [if_neg fun hnew => Option.some_ne_none x hnew.2, hsep x hx b hb hid]
  · rw [OrdMap.getElem?_insertIfNew_eq, if_neg]
    · exact hx
    · rintro ⟨rfl, hnone⟩
      rw [hnone] at hx
      cases hx

omit [InetText] in
/-- The loop over the store of side branches: what it has is used, and the rest is missing. -/
theorem reuse_run {branches : List StoredBlock} (hgood : Good branches)
    (hsep : Separate (branches ++ all)) (hall : ∀ b ∈ all, b.Canonical) (hblocks : blocks ⊆ all)
    (c : CandidateBodies) (hc : BodiesOf all c.bodies) : ∃ bodies : ExtTreeMap Str StoredBlock,
      (blocks.map StoredBlock.headerRecord).foldlM (reuseBody branches) c = .ok ⟨bodies, c.missing ++
        (blocks.filter fun b => b.id ∉ ids branches).map StoredBlock.item⟩ ∧
      BodiesOf all bodies ∧
      (∀ (hash : Str) (x : StoredBlock), c.bodies[hash]? = some x → bodies[hash]? = some x) ∧
      ∀ b ∈ blocks, b.id ∈ ids branches → bodies[b.id]? = some b := by
  have hsepAll : Separate all := fun a ha b hb =>
    hsep a (List.mem_append_right _ ha) b (List.mem_append_right _ hb)
  induction blocks generalizing c with
  | nil => exact ⟨c.bodies, by simp [pure, Except.pure], hc, fun _ _ h => h, by simp⟩
  | cons b blocks ih =>
    obtain ⟨hb, hrest⟩ := List.cons_subset.1 hblocks
    have hhash : b.headerRecord.header.hashHex = .ok b.id := (hall b hb).hashHex_id
    have hfind : findBlock b.id branches = .ok (branches.find? fun b' => b'.id = b.id) :=
      findBlock_ok fun b hb => (hgood.readable b hb).1
    rw [List.map_cons, List.foldlM_cons]
    by_cases hmem : b.id ∈ ids branches
    · obtain ⟨found, hfound⟩ := find?_ids.1 hmem
      have hid : found.id = b.id := by simpa using List.find?_some hfound
      obtain rfl := hsep found (List.mem_append_left _ (List.mem_of_find?_eq_some hfound)) b
        (List.mem_append_right _ hb) hid
      obtain ⟨hinsert, hself, hkept⟩ := hc.insert hsepAll hb
      have hstep : reuseBody branches c found.headerRecord =
          .ok { c with bodies := c.bodies.insertIfNew found.id found } := by
        rw [reuseBody, hhash, except_ok_bind, hfind, hfound, except_ok_bind]
        simp only [StoredBlock.headerRecord, (hall found hb).header.serialize, except_ok_bind, ne_eq,
          not_true_eq_false, if_false]
        rfl
      obtain ⟨bodies, hrun, hbodies, hkept', hfinds⟩ :=
        ih hrest { c with bodies := c.bodies.insertIfNew found.id found } hinsert
      refine ⟨bodies, ?_, hbodies, fun hash x hx => hkept' _ _ (hkept _ _ hx), ?_⟩
      · rw [hstep, except_ok_bind, hrun, List.filter_cons_of_neg (by simpa using hmem)]
      · intro b' hb' hids
        rcases List.mem_cons.1 hb' with rfl | hb'
        · exact hkept' _ _ hself
        · exact hfinds b' hb' hids
    · have hnone : branches.find? (fun b' => b'.id = b.id) = none := by
        rw [Option.eq_none_iff_forall_not_mem]
        exact fun found hfound => hmem (find?_ids.2 ⟨found, hfound⟩)
      have hstep : reuseBody branches c b.headerRecord =
          .ok { c with missing := c.missing ++ [b.item] } := by
        rw [reuseBody, hhash, except_ok_bind, hfind, hnone]
        rfl
      obtain ⟨bodies, hrun, hbodies, hkept, hfinds⟩ :=
        ih hrest { c with missing := c.missing ++ [b.item] } hc
      refine ⟨bodies, ?_, hbodies, hkept, ?_⟩
      · rw [hstep, except_ok_bind, hrun, List.filter_cons_of_pos (by simpa using hmem),
          List.map_cons, List.append_assoc]
        rfl
      · intro b' hb' hids
        rcases List.mem_cons.1 hb' with rfl | hb'
        · exact absurd hids hmem
        · exact hfinds b' hb' hids

omit [InetText] in
theorem findHeader_run (hall : ∀ b ∈ all, b.Canonical) (hsep : Separate all) (hb : b ∈ all)
    (hblocks : blocks ⊆ all) (hmem : b ∈ blocks) :
    findHeader b.id (blocks.map StoredBlock.headerRecord) = .ok (some b.headerRecord) := by
  induction blocks with
  | nil => cases hmem
  | cons c blocks ih =>
    obtain ⟨hc, hrest⟩ := List.cons_subset.1 hblocks
    have hhash : c.headerRecord.header.hashHex = .ok c.id := (hall c hc).hashHex_id
    rw [List.map_cons, findHeader, hhash, except_ok_bind]
    by_cases hid : c.id = b.id
    · rw [if_pos hid, hsep c hc b hb hid]
      rfl
    · rw [if_neg hid]
      refine ih hrest ((List.mem_cons.1 hmem).resolve_left ?_)
      rintro rfl
      exact hid rfl

/-! ### What is received -/

/-- The state with other blocks in the store of side branches. -/
def withBranches (s : PeerSync σ ServerSession) (branches : List StoredBlock) :
    PeerSync σ ServerSession :=
  { s with directory := { s.directory with
      branches := { s.directory.branches with blocks := branches } } }

omit [Crypto] [InetText] in
theorem Idle.withBranches {s : PeerSync σ ServerSession} (h : Idle A files s)
    (branches : List StoredBlock) : Idle A files (withBranches s branches) :=
  ⟨h.remote, h.inbox, h.blocks⟩

/-- A block that was asked for. -/
theorem receiveRequested_run {s : PeerSync σ ServerSession} {inbox : List Message}
    (hinbox : s.inbox = b.message :: inbox) (hgood : Good s.directory.branches.blocks)
    (hall : ∀ b ∈ all, b.Fits) (hsep : Separate all) (hb : b ∈ all) :
    (receiveRequested (ServerSession.receive t n) S (all.map StoredBlock.headerRecord) bodies).run s =
      .ok (bodies.insertIfNew b.id b)
        (withBranches { s with inbox := inbox } (putBlock s.directory.branches.blocks b)) := by
  have hfits := hall b hb
  have hhash := hfits.readable.1.hashHex_id
  have hcanonical : ∀ b ∈ all, b.Canonical := fun b hb => (hall b hb).readable.1
  have hheader := findHeader_run hcanonical hsep hb (List.Subset.refl all) hb
  have hput : (SideBranchStore.put b).run ({ s with inbox := inbox }).directory.branches =
      .ok () ⟨putBlock s.directory.branches.blocks b, s.directory.branches.file⟩ :=
    put_run hgood hfits.readable
  have hcommand : b.message.command ∈ [str "block", str "notfound"] := List.mem_cons_self
  have hblock : ¬ b.message.command = str "notfound" := by
    show ¬ str "block" = str "notfound"
    decide
  have hdecode : deserializeStoredBlocks b.message.payload = .ok [b] := hfits.deserialize
  have hheight : ¬ b.height ≠ b.headerRecord.height := not_not.2 rfl
  have hbytes : b.block.header.serialize = .ok b.block.header.encode :=
    hfits.readable.1.header.serialize
  have hbytes' : b.headerRecord.header.serialize = .ok b.block.header.encode := hbytes
  have hsame : ¬ b.block.header.encode ≠ b.block.header.encode := not_not.2 rfl
  rw [receiveRequested, run_bind_of_ok (receiveUntil_run hinbox hcommand),
    run_bind_of_ok ((throwIf_run_ok (u := ())).2 ⟨hblock, rfl⟩),
    run_bind_of_ok (lift_run_ok.2 ⟨hdecode, rfl⟩)]
  dsimp only
  rw [run_bind_of_ok (lift_run_ok.2 ⟨hhash, rfl⟩), run_bind_of_ok (lift_run_ok.2 ⟨hheader, rfl⟩),
    run_bind_of_ok (lift_run_ok.2 ⟨orThrow_ok.2 rfl, rfl⟩),
    run_bind_of_ok ((throwIf_run_ok (u := ())).2 ⟨hheight, rfl⟩),
    run_bind_of_ok (lift_run_ok.2 ⟨hbytes, rfl⟩), run_bind_of_ok (lift_run_ok.2 ⟨hbytes', rfl⟩),
    run_bind_of_ok ((throwIf_run_ok (u := ())).2 ⟨hsame, rfl⟩), run_bind_of_ok (onBranches_run hput)]
  rfl

/-- The answers to a request. -/
theorem receiveBodies_run {s : PeerSync σ ServerSession}
    (hinbox : s.inbox = blocks.map StoredBlock.message)
    (hgood : Good s.directory.branches.blocks) (hall : ∀ b ∈ all, b.Fits) (hsep : Separate all)
    (hblocks : blocks ⊆ all) (hbodies : BodiesOf all bodies) :
    ∃ bodies' : ExtTreeMap Str StoredBlock,
      ((blocks.map StoredBlock.item).foldlM (fun bodies _ =>
        receiveRequested (ServerSession.receive t n) S (all.map StoredBlock.headerRecord) bodies)
          bodies).run s = .ok bodies'
          (withBranches { s with inbox := [] } (blocks.foldl putBlock s.directory.branches.blocks)) ∧
      BodiesOf all bodies' ∧
      (∀ (hash : Str) (x : StoredBlock), bodies[hash]? = some x → bodies'[hash]? = some x) ∧
      ∀ b ∈ blocks, bodies'[b.id]? = some b := by
  induction blocks generalizing s bodies with
  | nil =>
    refine ⟨bodies, ?_, hbodies, fun _ _ h => h, by simp⟩
    rw [List.map_nil] at hinbox
    cases s
    subst hinbox
    rfl
  | cons b blocks ih =>
    obtain ⟨hb, hrest⟩ := List.cons_subset.1 hblocks
    obtain ⟨hinsert, hself, hkept⟩ := hbodies.insert hsep hb
    have hfirst : (receiveRequested (ServerSession.receive t n) S (all.map StoredBlock.headerRecord)
        bodies).run s = _ := receiveRequested_run hinbox hgood hall hsep hb
    obtain ⟨bodies', hrun, hbodies', hkept', hfinds⟩ := ih
      (s := withBranches { s with inbox := blocks.map StoredBlock.message }
        (putBlock s.directory.branches.blocks b)) rfl (hgood.put (hall b hb).readable) hrest hinsert
    refine ⟨bodies', ?_, hbodies', fun hash x hx => hkept' _ _ (hkept _ _ hx), ?_⟩
    · rw [List.map_cons, List.foldlM_cons, run_bind_of_ok hfirst, hrun]
      rfl
    · intro b' hb'
      rcases List.mem_cons.1 hb' with rfl | hb'
      · exact hkept' _ _ hself
      · exact hfinds b' hb'

/-- **A request for blocks** of the server's chain brings all of them. -/
theorem fetchBatch_run {s : PeerSync σ ServerSession} (hs : Idle A files s)
    (hgood : Good s.directory.branches.blocks) (hcanonical : ∀ b ∈ files.blocks, b.Canonical)
    (hserved : Separate files.blocks) (hall : ∀ b ∈ all, b.Fits ∧ b ∈ files.blocks)
    (hblocks : blocks ⊆ all) (hcount : blocks.length ≤ maxInventoryItems)
    (hbodies : BodiesOf all bodies) : ∃ bodies' : ExtTreeMap Str StoredBlock,
      (fetchBatch (ServerSession.receive t n) S (all.map StoredBlock.headerRecord) bodies
        (blocks.map StoredBlock.item)).run s = .ok bodies'
          (withBranches s (blocks.foldl putBlock s.directory.branches.blocks)) ∧
      BodiesOf all bodies' ∧
      (∀ (hash : Str) (x : StoredBlock), bodies[hash]? = some x → bodies'[hash]? = some x) ∧
      ∀ b ∈ blocks, bodies'[b.id]? = some b := by
  have hsep : Separate all := fun a ha b hb => hserved a (hall a ha).2 b (hall b hb).2
  have hok : InventoryOk (blocks.map StoredBlock.item) := by
    refine ⟨by rwa [List.length_map], fun item hitem => ?_⟩
    obtain ⟨b, -, rfl⟩ := List.mem_map.1 hitem
    exact .display _
  obtain ⟨request, hrequest, hlength⟩ := inventory_payload hok
  obtain ⟨request', hrequest', hread⟩ := inventory_strict.roundTrip _ hok
  obtain rfl := Except.ok.inj (hrequest'.symm.trans hrequest)
  have hreceive : ServerSession.receive t n s.remote ⟨str "getdata", request'⟩ =
      (⟨files, .request⟩, blocks.map StoredBlock.message) := by
    rw [hs.remote]
    exact receive_request rfl
      (serve_getdata hcanonical hserved (fun b hb => hall b (hblocks hb)) hread)
  obtain ⟨bodies', hrun, hresult⟩ := receiveBodies_run (t := t) (n := n) (S := S)
    (s := { s with
      remote := (⟨files, .request⟩ : ServerSession)
      inbox := s.inbox ++ blocks.map StoredBlock.message })
    (by rw [hs.inbox]; rfl) hgood (fun b hb => (hall b hb).1) hsep hblocks hbodies
  refine ⟨bodies', ?_, hresult⟩
  have hcommand : CommandOk (str "getdata") := validateCommand_ok.1 rfl
  rw [fetchBatch, run_bind_of_ok (lift_run_ok.2 ⟨hrequest', rfl⟩),
    run_bind_of_ok (sendToPeer_run hcommand hlength hreceive), hrun]
  have hremote := hs.remote
  have hinbox := hs.inbox
  cases s
  subst hremote hinbox
  rfl

/-- **All requests** for the blocks that are missing. -/
theorem fetchBodies_run {s : PeerSync σ ServerSession} (hs : Idle A files s)
    (hgood : Good s.directory.branches.blocks) (hcanonical : ∀ b ∈ files.blocks, b.Canonical)
    (hserved : Separate files.blocks) (hall : ∀ b ∈ all, b.Fits ∧ b ∈ files.blocks)
    (hblocks : blocks ⊆ all) (hbodies : BodiesOf all bodies) :
    ∃ bodies' : ExtTreeMap Str StoredBlock,
      ((inventoryBatches (blocks.map StoredBlock.item)).foldlM (fetchBatch (ServerSession.receive t n)
        S (all.map StoredBlock.headerRecord)) bodies).run s = .ok bodies'
          (withBranches s (blocks.foldl putBlock s.directory.branches.blocks)) ∧
      BodiesOf all bodies' ∧
      (∀ (hash : Str) (x : StoredBlock), bodies[hash]? = some x → bodies'[hash]? = some x) ∧
      ∀ b ∈ blocks, bodies'[b.id]? = some b := by
  induction hlen : blocks.length using Nat.strong_induction_on generalizing blocks s bodies with
  | _ m ih =>
    rw [inventoryBatches]
    by_cases hnil : blocks = []
    · subst hnil
      exact ⟨bodies, rfl, hbodies, fun _ _ h => h, by simp⟩
    have hpos := List.length_pos_of_ne_nil hnil
    have htake : blocks.take maxInventoryItems ⊆ all :=
      fun b hb => hblocks (List.mem_of_mem_take hb)
    have hdrop : blocks.drop maxInventoryItems ⊆ all :=
      fun b hb => hblocks (List.mem_of_mem_drop hb)
    obtain ⟨bodies₁, hfirst, hbodies₁, hkept₁, hfinds₁⟩ := fetchBatch_run (t := t) (n := n) (S := S) hs
      hgood hcanonical hserved hall htake (List.length_take_le _ _) hbodies
    have hgood₁ : Good (withBranches s ((blocks.take maxInventoryItems).foldl putBlock
        s.directory.branches.blocks)).directory.branches.blocks :=
      hgood.foldl fun b hb => (hall b (htake hb)).1.readable
    have hshorter : (blocks.drop maxInventoryItems).length < m := by
      rw [List.length_drop, maxInventoryItems]
      omega
    obtain ⟨bodies₂, hrest, hbodies₂, hkept₂, hfinds₂⟩ :=
      ih _ hshorter (hs.withBranches _) hgood₁ hdrop hbodies₁ rfl
    refine ⟨bodies₂, ?_, hbodies₂, fun hash x hx => hkept₂ _ _ (hkept₁ _ _ hx), fun b hb => ?_⟩
    · rw [if_neg (by simpa using hnil), List.foldlM_cons, ← List.map_take, ← List.map_drop,
        run_bind_of_ok hfirst, hrest]
      have hsplit : blocks.foldl putBlock s.directory.branches.blocks =
          (blocks.drop maxInventoryItems).foldl putBlock
            ((blocks.take maxInventoryItems).foldl putBlock s.directory.branches.blocks) := by
        rw [← List.foldl_append, List.take_append_drop]
      rw [hsplit]
      rfl
    · rw [← List.take_append_drop maxInventoryItems blocks] at hb
      rcases List.mem_append.1 hb with hb | hb
      · exact hkept₂ _ _ (hfinds₁ b hb)
      · exact hfinds₂ b hb

/-! ## The store of side branches -/

omit [InetText] in
/-- What is put into the store is what was there before, and what is put. -/
theorem forall_foldl {P : StoredBlock → Prop} {branches : List StoredBlock}
    (hbranches : ∀ b ∈ branches, P b) (hblocks : ∀ b ∈ blocks, P b) :
    ∀ b ∈ blocks.foldl putBlock branches, P b := by
  induction blocks generalizing branches with
  | nil => exact hbranches
  | cons b blocks ih =>
    obtain ⟨hb, hrest⟩ := List.forall_mem_cons.1 hblocks
    refine ih (fun c hc => ?_) hrest
    rw [putBlock] at hc
    split_ifs at hc
    · exact hbranches c hc
    · rcases List.mem_append.1 hc with hc | hc
      · exact hbranches c hc
      · rw [List.mem_singleton.1 hc]
        exact hb

omit [Crypto] [InetText] in
theorem save_run {branches : SideBranchStore} (hfits : ∀ b ∈ branches.blocks, b.Fits) :
    ∃ file, SideBranchStore.save.run branches = .ok () { branches with file := file } :=
  ⟨_, save_ok.2 ⟨fun b hb => ⟨(hfits b hb).readable.1.serializable, (hfits b hb).size⟩, rfl⟩⟩

omit [InetText] in
theorem putMany_run {branches : SideBranchStore} (hgood : Good branches.blocks)
    (hbranches : ∀ b ∈ branches.blocks, b.Fits) (hblocks : ∀ b ∈ blocks, b.Fits) :
    ∃ file, (SideBranchStore.putMany blocks).run branches =
      .ok () ⟨blocks.foldl putBlock branches.blocks, file⟩ := by
  have hfold : ∀ b ∈ (⟨blocks.foldl putBlock branches.blocks, branches.file⟩ :
      SideBranchStore).blocks, b.Fits := forall_foldl hbranches hblocks
  obtain ⟨file, hsave⟩ := save_run hfold
  refine ⟨file, ?_⟩
  rw [SideBranchStore.putMany,
    run_bind_of_ok (forM_put_run hgood fun b hb => (hblocks b hb).readable), hsave]

omit [InetText] in
theorem inactive_run {active : List StoredBlock} (hactive : ∀ b ∈ active, b.Canonical)
    (hblocks : ∀ b ∈ blocks, b.Canonical) :
    SideBranchStore.inactive active blocks = .ok (blocks.filter fun b => b.id ∉ ids active) := by
  have hfilter : ∀ (hashes : List Str) (acc : List StoredBlock), ∃ kept,
      blocks.filterAuxM (fun stored => do return decide ((← stored.hashHex) ∉ hashes)) acc =
        (.ok kept : Except Exn (List StoredBlock)) := by
    intro hashes
    induction blocks with
    | nil => exact fun acc => ⟨acc, rfl⟩
    | cons b blocks ih =>
      intro acc
      obtain ⟨hb, hrest⟩ := List.forall_mem_cons.1 hblocks
      rw [List.filterAuxM, hb.hashHex_id, except_ok_bind]
      exact ih hrest _
  obtain ⟨hashes, hhashes⟩ := mapM_of_forall fun b hb => ⟨_, (hactive b hb).hashHex⟩
  obtain ⟨kept, hkept⟩ := hfilter hashes []
  have hrun : SideBranchStore.inactive active blocks = .ok kept.reverse := by
    rw [SideBranchStore.inactive, hhashes, except_ok_bind, List.filterM, hkept]
    rfl
  rw [hrun, inactive_ok hrun]

omit [InetText] in
theorem removeActive_run {branches : SideBranchStore} {active : List StoredBlock}
    (hactive : ∀ b ∈ active, b.Canonical) (hbranches : ∀ b ∈ branches.blocks, b.Fits) :
    ∃ file, (SideBranchStore.removeActive active).run branches =
      .ok () ⟨branches.blocks.filter fun b => b.id ∉ ids active, file⟩ := by
  have hfilter : ∀ b ∈ (⟨branches.blocks.filter fun b => b.id ∉ ids active, branches.file⟩ :
      SideBranchStore).blocks, b.Fits := fun b hb => hbranches b (List.mem_of_mem_filter hb)
  obtain ⟨file, hsave⟩ := save_run hfilter
  refine ⟨file, ?_⟩
  have hinactive := inactive_run hactive fun b hb => (hbranches b hb).readable.1
  have hget : (get : SideBranchM SideBranchStore).run branches = .ok branches branches := rfl
  rw [SideBranchStore.removeActive, run_bind_of_ok hget,
    run_bind_of_ok (lift_run_ok.2 ⟨hinactive, rfl⟩)]
  exact hsave

/-! ## The candidate -/

omit [InetText] in
theorem candidateChain_run {kept : List StoredBlock} (hcanonical : ∀ b ∈ all, b.Canonical)
    (hfinds : ∀ b ∈ all, bodies[b.id]? = some b) :
    candidateChain kept (all.map StoredBlock.headerRecord) bodies = .ok (kept ++ all) := by
  have hfound : (all.map StoredBlock.headerRecord).mapM (fun record => do
      orThrow bodies[(← record.header.hashHex)]? (runtimeError "Missing candidate block body")) =
        .ok all := by
    induction all with
    | nil => rfl
    | cons b all ih =>
      obtain ⟨hb, hrest⟩ := List.forall_mem_cons.1 hcanonical
      obtain ⟨hbody, hbodies⟩ := List.forall_mem_cons.1 hfinds
      have hhash : b.headerRecord.header.hashHex = .ok b.id := hb.hashHex_id
      rw [List.map_cons, List.mapM_cons, hhash, except_ok_bind, orThrow_ok.2 hbody, except_ok_bind,
        ih hrest hbodies]
      rfl
  rw [candidateChain, hfound]
  rfl

/-- Blocks that can be exchanged: they fit into a message, and no two have one hash. -/
structure Exchangeable (network : List StoredBlock) : Prop where
  fits : ∀ b ∈ network, b.Fits
  separate : Separate network

/-- A data directory with an accepted chain, and a file with the side branches, that has no other
    blocks. -/
structure Holds (network : List StoredBlock) (d : DataDirectory σ) : Prop where
  valid : d.node.chain.Valid
  loads : Loads d.branches.file d.branches.blocks
  chain : d.node.chain.blocks ⊆ network
  branches : d.branches.blocks ⊆ network

/-- What a sync leaves of a chain `A`, where the peer has `B`. -/
structure Adopted (A B : List StoredBlock) (uB : UtxoSet) (d d' : DataDirectory σ) : Prop where
  longer : A.length < B.length → d'.node.chain.blocks = B ∧ d'.node.chain.utxos = uB
  kept : B.length ≤ A.length → d'.node.chain = d.node.chain
  /-- every block that has left the chain is in the store -/
  disconnected : A.length < B.length → ∀ a ∈ A, a ∉ B → a.id ∈ ids d'.branches.blocks
  /-- no block of the new chain is -/
  active : A.length < B.length → ∀ b ∈ B, b.id ∉ ids d'.branches.blocks
  /-- and nothing else has left the store -/
  remembered : ∀ hash ∈ ids d.branches.blocks,
    hash ∈ ids d'.branches.blocks ∨ hash ∈ ids d'.node.chain.blocks

variable {network : List StoredBlock}

omit [InetText] in
theorem Separate.mono (h : Separate network) (hblocks : blocks ⊆ network) : Separate blocks :=
  fun a ha b hb => h a (hblocks ha) b (hblocks hb)

omit [InetText] in
/-- The blocks above the fork are put into the store first. -/
theorem activateBranch_put {d : DataDirectory σ} (hgood : Good d.branches.blocks)
    (hbranches : ∀ b ∈ d.branches.blocks, b.Fits) (hloads : Loads d.branches.file d.branches.blocks)
    (hdropped : ∀ b ∈ A.drop (i + 1), b.Fits) : ∃ branches : SideBranchStore,
      (activateBranch S A i B).run d = (do
        let activation ← onNode (onChain (TestnetChain.activateIfMoreWork S B))
        if activation.activated then
          onBranches (SideBranchStore.removeActive (← get).node.chain.blocks)
        return activation : SectionM σ ChainActivationResult).run { d with branches := branches } ∧
      branches.blocks = (A.drop (i + 1)).foldl putBlock d.branches.blocks ∧
      Loads branches.file branches.blocks := by
  by_cases hlt : i + 1 < A.length
  · obtain ⟨file, hrun⟩ := putMany_run hgood hbranches hdropped
    refine ⟨_, ?_, rfl, (putMany_ok hgood (fun b hb => (hdropped b hb).readable) hrun).2⟩
    rw [activateBranch, if_pos hlt, run_bind_of_ok (onBranches_run_ok.2 ⟨_, hrun, rfl⟩)]
  · refine ⟨d.branches, ?_, ?_, hloads⟩
    · rw [activateBranch, if_neg hlt]
    · rw [List.drop_of_length_le (by omega)]
      rfl

omit [InetText] in
/-- **The candidate is activated** if it is longer, and what it replaces is kept. -/
theorem activateBranch_run (hS : TestnetChain.Commits S) (hnetwork : Exchangeable network)
    {d : DataDirectory σ} (hd : Holds network d) (hB : Chain B uB) (hBnet : B ⊆ network)
    (hshared : d.node.chain.blocks.take (i + 1) = B.take (i + 1)) : ∃ r d',
      (activateBranch S d.node.chain.blocks i B).run d = .ok r d' ∧
      Adopted d.node.chain.blocks B uB d d' ∧ Holds network d' ∧
      d'.node.mempool = d.node.mempool := by
  have hdrop : ∀ b ∈ d.node.chain.blocks.drop (i + 1), b ∈ network :=
    fun b hb => hd.chain (List.mem_of_mem_drop hb)
  have hsep : Separate (d.node.chain.blocks ++ B) :=
    hnetwork.separate.mono (List.append_subset.2 ⟨hd.chain, hBnet⟩)
  obtain ⟨branches, hput, hblocks, hloads₁⟩ :=
    activateBranch_put (S := S) (B := B) hd.loads.good
      (fun b hb => hnetwork.fits b (hd.branches hb)) hd.loads fun b hb => hnetwork.fits b (hdrop b hb)
  have hgood₁ : Good branches.blocks := hloads₁.good
  have hnetwork₁ : ∀ b ∈ branches.blocks, b ∈ network := by
    rw [hblocks]
    exact forall_foldl (fun b hb => hd.branches hb) hdrop
  have hremembered : ∀ hash ∈ ids d.branches.blocks, hash ∈ ids branches.blocks := by
    intro hash hhash
    rw [hblocks, mem_foldl]
    exact .inl hhash
  obtain ⟨r, chain, hactivate, hcases⟩ := TestnetChain.activateIfMoreWork_run hS hd.valid hB
  have hnode : (onNode (onChain (TestnetChain.activateIfMoreWork S B)) : SectionM σ _).run
      { d with branches := branches } =
        .ok r { node := { d.node with chain := chain }, branches := branches } :=
    onNode_run_ok.2 ⟨_, onChain_run_ok.2 ⟨chain, hactivate, rfl⟩, rfl⟩
  rcases hcases with ⟨hactivated, hlt, storage, -, rfl⟩ | ⟨hactivated, hlength, rfl⟩
  · obtain ⟨file, hremove⟩ := removeActive_run (fun b hb => (hB.stored_canonical b hb))
      fun b hb => hnetwork.fits b (hnetwork₁ b hb)
    obtain ⟨-, hloads₂⟩ := removeActive_ok hgood₁ hremove
    refine ⟨r, ⟨{ d.node with
      chain := { d.node.chain with blocks := B, utxos := uB, storage := storage } }, _⟩, ?_,
      ⟨fun _ => ⟨rfl, rfl⟩, fun hle => absurd hlt (Nat.not_lt.2 hle), fun _ a ha hnot => ?_,
        fun _ b hb hmem => ?_, fun hash hhash => ?_⟩,
      ⟨hB, hloads₂, hBnet, fun b hb => hnetwork₁ b (List.mem_of_mem_filter hb)⟩, rfl⟩
    · rw [hput, run_bind_of_ok hnode, if_pos hactivated]
      exact run_bind_of_ok (onBranches_run_ok.2 ⟨_, hremove, rfl⟩)
    · refine mem_ids_filter.2 ⟨?_, fun hactive => ?_⟩
      · rw [hblocks, mem_foldl]
        rw [← List.take_append_drop (i + 1) d.node.chain.blocks, hshared] at ha
        refine .inr (List.mem_map.2 ⟨a, (List.mem_append.1 ha).resolve_left ?_, rfl⟩)
        exact fun hmem => hnot (List.mem_of_mem_take hmem)
      · obtain ⟨b, hb, hid⟩ := List.mem_map.1 hactive
        rw [← hsep b (List.mem_append_right _ hb) a (List.mem_append_left _ ha) hid] at hnot
        exact hnot hb
    · exact (mem_ids_filter.1 hmem).2 (List.mem_map.2 ⟨b, hb, rfl⟩)
    · by_cases hactive : hash ∈ ids B
      · exact .inr hactive
      · exact .inl (mem_ids_filter.2 ⟨hremembered hash hhash, hactive⟩)
  · refine ⟨r, ⟨d.node, branches⟩, ?_, ⟨fun hlt => absurd hlength (Nat.not_le.2 hlt), fun _ => rfl,
      fun hlt => absurd hlength (Nat.not_le.2 hlt), fun hlt => absurd hlength (Nat.not_le.2 hlt),
      fun hash hhash => .inl (hremembered hash hhash)⟩,
      ⟨hd.valid, hloads₁, hd.chain, fun b hb => hnetwork₁ b hb⟩, rfl⟩
    rw [hput, run_bind_of_ok hnode, if_neg (by simp [hactivated])]
    rfl

/-! ## The chain -/

omit [Crypto] [InetText] in
theorem headersBetween_top (hlt : i < B.length) :
    headersBetween B i (B.length - 1) = (B.drop (i + 1)).map StoredBlock.headerRecord := by
  rw [headersBetween, Nat.sub_add_cancel (Nat.one_le_of_lt hlt), List.take_length]

omit [Crypto] [InetText] in
theorem take_eq_take (hshared : ∀ k ≤ i, A[k]? = B[k]?) : A.take (i + 1) = B.take (i + 1) := by
  refine List.ext_getElem? fun k => ?_
  rw [List.getElem?_take, List.getElem?_take]
  split_ifs with hk
  · exact hshared k (Nat.le_of_lt_succ hk)
  · rfl

/-- The bodies of the branch: those in the store are reused, and the others are downloaded. -/
theorem branchBodies_run {s : PeerSync σ ServerSession} (hs : Idle A files s)
    (hgood : Good s.directory.branches.blocks) (hcanonical : ∀ b ∈ files.blocks, b.Canonical)
    (hserved : Separate files.blocks) (hall : ∀ b ∈ all, b.Fits ∧ b ∈ files.blocks)
    (hsep : Separate (s.directory.branches.blocks ++ all)) :
    ∃ bodies bodies' : ExtTreeMap Str StoredBlock,
      reuseBodies s.directory.branches.blocks (all.map StoredBlock.headerRecord) =
        .ok ⟨bodies, (all.filter fun b : StoredBlock =>
          b.id ∉ ids s.directory.branches.blocks).map StoredBlock.item⟩ ∧
      ((inventoryBatches ((all.filter fun b : StoredBlock =>
        b.id ∉ ids s.directory.branches.blocks).map StoredBlock.item)).foldlM (fetchBatch
          (ServerSession.receive t n) S (all.map StoredBlock.headerRecord)) bodies).run s = .ok bodies'
            (withBranches s ((all.filter fun b : StoredBlock =>
              b.id ∉ ids s.directory.branches.blocks).foldl putBlock s.directory.branches.blocks)) ∧
      ∀ b ∈ all, bodies'[b.id]? = some b := by
  have hnone : BodiesOf all ∅ := by
    intro hash x hx
    simp at hx
  obtain ⟨bodies, hreuse, hbodies, -, hreused⟩ := reuse_run hgood hsep
    (fun b hb => hcanonical b (hall b hb).2) (List.Subset.refl _) ⟨∅, []⟩ hnone
  rw [← reuseBodies, List.nil_append] at hreuse
  obtain ⟨bodies', hfetch, -, hkept, hfetched⟩ := fetchBodies_run (t := t) (n := n) (S := S) hs
    hgood hcanonical hserved hall (List.filter_subset_self _) hbodies
  refine ⟨bodies, bodies', hreuse, hfetch, fun b hb => ?_⟩
  by_cases hmem : b.id ∈ ids s.directory.branches.blocks
  · exact hkept _ _ (hreused b hb hmem)
  · exact hfetched b (List.mem_filter.2 ⟨hb, by simpa using hmem⟩)

/-- **The download of a chain**, from the locator to the activation. -/
theorem syncCandidate_run (hS : TestnetChain.Commits S) (hnetwork : Exchangeable network)
    {s : PeerSync σ ServerSession} (hs : Idle A files s) (hd : Holds network s.directory)
    (hB : Chain files.blocks uB) (hBnet : files.blocks ⊆ network)
    (hpeer : Announces peer files.blocks) (hheight : files.blocks.length ≤ 1000001)
    (hle : A.length ≤ files.blocks.length) (hdiffer : A ≠ files.blocks) {rounds : ℕ}
    (hrounds : files.blocks.length ≤ maxHeadersPerResponse * rounds) : ∃ result d',
      (syncCandidate (ServerSession.receive t n) S peer rounds).run s =
        .ok (some result) { s with directory := d' } ∧
      Adopted A files.blocks uB s.directory d' ∧ Holds network d' ∧
      d'.node.mempool = s.directory.node.mempool := by
  obtain rfl := hs.blocks
  have hA : Chain s.directory.node.chain.blocks s.directory.node.chain.utxos := hd.valid
  have hsep : Separate (s.directory.node.chain.blocks ++ files.blocks) :=
    hnetwork.separate.mono (List.append_subset.2 ⟨hd.chain, hBnet⟩)
  have hsepB : Separate files.blocks := hnetwork.separate.mono hBnet
  -- the fork
  obtain ⟨i, locator, hmake, hshared, hiA, hiB, hlocate, hok⟩ := locator_shared hA hB hsep
  have htake := take_eq_take hshared
  have hmore : i + 1 < files.blocks.length := by
    by_contra hend
    have hlenB : files.blocks.length = i + 1 := by omega
    refine hdiffer ?_
    rw [← List.take_length (l := files.blocks), hlenB, ← htake,
      List.take_of_length_le (by omega)]
  -- the headers
  have hstart : Requesting files.blocks i i
      ⟨[], locator, s.directory.node.chain.blocks.length, 0⟩ :=
    ⟨⟨le_rfl, hiB, headersBetween_self.symm⟩, fun h => absurd h (lt_irrefl i), hmore, hlocate, hok⟩
  obtain ⟨locator', requests, hheaders⟩ := fetchHeaders_run (t := t) (n := n) (S := S) hs hA hB hsep
    (hshared i le_rfl) hpeer rounds (by omega) hstart
  rw [headersBetween_top hiB] at hheaders
  -- the blocks
  have hgood := hd.loads.good
  have hcanonical : ∀ b ∈ files.blocks, b.Canonical := hB.stored_canonical
  have hdrop : ∀ b ∈ files.blocks.drop (i + 1), b.Fits ∧ b ∈ files.blocks := fun b hb =>
    have hmem := List.mem_of_mem_drop hb
    ⟨hnetwork.fits b (hBnet hmem), hmem⟩
  have hdropNet : ∀ b ∈ files.blocks.drop (i + 1), b ∈ network := fun b hb => hBnet (hdrop b hb).2
  have hsepDrop : Separate (s.directory.branches.blocks ++ files.blocks.drop (i + 1)) :=
    hnetwork.separate.mono (List.append_subset.2 ⟨hd.branches, hdropNet⟩)
  have hmissing : ((files.blocks.drop (i + 1)).filter fun b : StoredBlock =>
      b.id ∉ ids s.directory.branches.blocks) ⊆ files.blocks.drop (i + 1) :=
    List.filter_subset_self _
  obtain ⟨bodies, bodies', hreuse, hfetch, hfinds⟩ := branchBodies_run (t := t) (n := n) (S := S) hs
    hgood hcanonical hsepB hdrop hsepDrop
  -- the store
  have hgood₁ := hgood.foldl fun b hb => (hdrop b (hmissing hb)).1.readable
  have hstore : ∀ b ∈ (⟨((files.blocks.drop (i + 1)).filter fun b : StoredBlock =>
      b.id ∉ ids s.directory.branches.blocks).foldl putBlock s.directory.branches.blocks,
      s.directory.branches.file⟩ : SideBranchStore).blocks, b ∈ network :=
    forall_foldl (fun b hb => hd.branches hb) fun b hb => hdropNet b (hmissing hb)
  obtain ⟨file, hsave⟩ := save_run fun b hb => hnetwork.fits b (hstore b hb)
  obtain ⟨-, hloads⟩ := save_loads hgood₁ hsave
  -- the candidate
  have hcandidate : candidateChain (s.directory.node.chain.blocks.take (i + 1))
      ((files.blocks.drop (i + 1)).map StoredBlock.headerRecord) bodies' = .ok files.blocks := by
    rw [candidateChain_run (fun b hb => hcanonical b (hdrop b hb).2) hfinds, htake,
      List.take_append_drop]
  have hwork : candidateWork files.blocks peer = .ok peer.chainwork := by
    rw [candidateWork, hpeer.work, except_ok_bind, throwIf, if_neg (not_not.2 rfl)]
    rfl
  have hd₁ : Holds network { node := s.directory.node, branches := ⟨_, file⟩ } :=
    ⟨hd.valid, hloads, hd.chain, hstore⟩
  obtain ⟨r, d', hactivate, hadopted, hd', hmempool⟩ :=
    activateBranch_run hS hnetwork hd₁ hB hBnet htake
  obtain ⟨tip, htip, hbest, -⟩ := hpeer.tip
  have hsafe : ¬ peer.bestHeight > 1000000 := by
    rw [List.getLast?_eq_getElem?] at htip
    have htop := hB.height _ tip htip
    rw [hbest, gt_iff_lt, UInt64.lt_iff_toNat_lt, htop]
    show ¬ 1000000 < files.blocks.length - 1
    omega
  have hget : ∀ s' : PeerSync σ ServerSession, (get : PeerSyncM σ ServerSession _).run s' =
      .ok s' s' := fun _ => rfl
  obtain ⟨result, hrun⟩ : ∃ result, (syncCandidate (ServerSession.receive t n) S peer rounds).run s =
      .ok (some result) { s with directory := d' } := by
    rw [syncCandidate, run_bind_of_ok ((throwIf_run_ok (u := ())).2 ⟨hsafe, rfl⟩),
      run_bind_of_ok chainBlocks_run, run_bind_of_ok (lift_run_ok.2 ⟨hmake, rfl⟩),
      run_bind_of_ok hheaders]
    dsimp only
    rw [run_bind_of_ok chainBlocks_run, run_bind_of_ok (hget _),
      run_bind_of_ok (lift_run_ok.2 ⟨hreuse, rfl⟩), run_bind_of_ok hfetch,
      run_bind_of_ok (onBranches_run hsave), run_bind_of_ok (lift_run_ok.2 ⟨hcandidate, rfl⟩),
      run_bind_of_ok (lift_run_ok.2 ⟨hwork, rfl⟩), run_bind_of_ok chainBlocks_run,
      run_bind_of_ok (inDirectory_run hactivate)]
    exact ⟨_, rfl⟩
  exact ⟨result, d', hrun, ⟨hadopted.longer, hadopted.kept, hadopted.disconnected, hadopted.active,
    fun hash hhash => hadopted.remembered hash (mem_foldl.2 (.inl hhash))⟩, hd', hmempool⟩

end

end BinaryCoin
